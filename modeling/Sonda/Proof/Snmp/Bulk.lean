import Sonda.Framework.Fitting
import Sonda.Proof.Snmp.Envelopes
import Sonda.Proof.Snmp.Successors

/-!
# GetBulk

`bulkSequence` is what a GetBulk asks for, with no budget: the successors of
the non-repeaters, then the rounds of the repeaters' GetNext chains.
`getBulk_longest`: what `getBulk` writes is the longest front of it that the
budget holds; and `column`, the loop for a lone repeater, writes what the
general rounds write.

A `Cursor` is a range of the response. `Cursor.At` says which chain it stands
for, and a round takes cursors of chains to cursors of the chains after one
step (`RoundOk`, `firstRound_ok`, `laterRound_ok`).
-/

namespace Sonda.Snmp

open Framework List

/-! ## The reference -/

/-- The first instance after `arcs`. -/
def SnmpAgent.successor (agent : SnmpAgent) (arcs : List Nat) : Option Instance :=
  agent.instances.find? fun i => decide (arcs < i.arcs)

/-- A GetNext chain: the name it was last answered with, and whether that was
`endOfMibView`. -/
structure Chain where
  name : Octets
  arcs : List Nat
  ended : Bool

/-- The next answer of a chain, and the chain after it. -/
def Chain.step (agent : SnmpAgent) (c : Chain) : Chain × Octets :=
  if c.ended then (c, bindOf c.name .endOfMibView [])
  else
    match agent.successor c.arcs with
    | some i => (⟨oidBody i.oid, i.arcs, false⟩, i.varbind)
    | none => ({ c with ended := true }, bindOf c.name .endOfMibView [])

/-- At most `max` rounds, and none after one that is all `endOfMibView`. -/
def bulkRoundsOf (agent : SnmpAgent) : (max : Nat) → List Chain → List Octets
  | 0, _ => []
  | max + 1, chains =>
    let stepped := chains.map (Chain.step agent)
    stepped.map Prod.snd ++
      if stepped.all fun p => p.1.ended then [] else bulkRoundsOf agent max (stepped.map Prod.fst)

/-- The `VarBind`s of a GetBulk for `names`. -/
def bulkSequence (agent : SnmpAgent) (names : List Chain) (nonRepeaters maxRepetitions : Nat) :
    List Octets :=
  (names.take nonRepeaters).map (fun c => (c.step agent).2) ++
    bulkRoundsOf agent maxRepetitions (names.drop nonRepeaters)

/-- The chain a request's name starts. -/
def chainOf (var : VarBind) : Option Chain :=
  (decodeBerBody var.oid).map fun arcs => ⟨var.oid, arcs, false⟩

/-! ## One step of a chain -/

theorem successor_eq (agent : SnmpAgent) (arcs : List Nat) :
    agent.successor arcs = (agent.after arcs false).head? := by
  rw [SnmpAgent.successor, SnmpAgent.after, head?_filter]
  congr 1
  simp [Instance.skipped]

/-- A chain whose name reads. -/
structure Chain.Reads (c : Chain) : Prop where
  name : decodeBerBody c.name = some c.arcs
  exception : Readable c.name .endOfMibView []

/-- Every instance that fits the budget reads. -/
def FittingReads (agent : SnmpAgent) (list : BindList) : Prop :=
  ∀ i ∈ agent.instances, i.varbind.length ≤ list.reply.budget →
    ∃ value : Value, i.varbind = instanceVarbind i.oid value ∧ Readable (oidBody i.oid) value.tag value.octets

section steps

variable {agent : SnmpAgent} {list : BindList}
variable {chains : List Chain} {out : Octets} {c : Chain} {vars : List VarBind}

theorem le_budget_of_fits {n : Nat} (h : list.fits out n = true) : n ≤ list.reply.budget := by
  have hlen := list.reply.envelope.le_len list.reply.id 0 0 (out.length - list.start + n)
  have hfits := of_decide_eq_true h
  omega

/-- What is written for a chain, and what it was. -/
def Chain.write (agent : SnmpAgent) (list : BindList) (c : Chain) (out : Octets) : Octets × Step :=
  if list.fits out (c.step agent).2.length then
    (out ++ (c.step agent).2, if (c.step agent).1.ended then .ended else .found)
  else (out, .full)

theorem next_eq_write (hagent : agent.WellServed) (hc : c.ended = false) {name : Name}
    (hname : name.Is out c.name) : next agent list c.arcs name out = c.write agent list out := by
  rw [next_eq, ahead_eq hagent, Chain.write, Chain.step, hc, if_neg Bool.false_ne_true, successor_eq]
  cases agent.after c.arcs false with
  | nil => exact endOfMibView_eq hname
  | cons i rest => rfl

theorem endOfMibView_eq_write (hc : c.ended = true) {name : Name} (hname : name.Is out c.name) :
    endOfMibView list name out = c.write agent list out := by
  rw [endOfMibView_eq hname, Chain.write, Chain.step, hc, if_pos rfl]
  rw [hc, if_pos rfl]

theorem Readable.exception {name octets : Octets} {tag : Tag} (h : Readable name tag octets) :
    Readable name .endOfMibView [] := by
  have hpos : 2 ≤ tlvLen octets.length := by
    rw [tlvLen, lengthLen]
    split <;> omega
  have hend : tlvLen ([] : Octets).length = 2 := rfl
  rw [Readable, length_append, length_tlv, length_tlv] at h ⊢
  omega

/-- The answer of a chain is a `VarBind` of the name it is then at. -/
theorem Chain.step_reads (hreads : FittingReads agent list) (hc : c.Reads)
    (hfits : (c.step agent).2.length ≤ list.reply.budget) :
    (c.step agent).1.Reads ∧ ∃ tag octets, (c.step agent).2 = bindOf (c.step agent).1.name tag octets ∧
      Readable (c.step agent).1.name tag octets := by
  unfold Chain.step at hfits ⊢
  cases hended : c.ended with
  | true =>
    exact ⟨hc, _, _, rfl, hc.exception⟩
  | false =>
    rw [hended, if_neg Bool.false_ne_true] at hfits
    cases hs : agent.successor c.arcs with
    | none => exact ⟨⟨hc.name, hc.exception⟩, _, _, rfl, hc.exception⟩
    | some i =>
      rw [hs] at hfits
      obtain ⟨value, hvalue, hread⟩ := hreads i (mem_of_find?_eq_some hs) hfits
      exact ⟨⟨decodeBerBody_oidBody i.oid, hread.exception⟩, value.tag, value.octets, hvalue, hread⟩

/-! ## Cursors -/

/-- The cursor is at the name of the chain in `out`. -/
structure Cursor.At (out : Octets) (cursor : Cursor) (c : Chain) : Prop where
  reads : c.Reads
  holds : Holds out cursor.start cursor.stop c.name
  ended : cursor.ended = c.ended

theorem Cursor.At.append {cursor : Cursor} (h : cursor.At out c) (more : Octets) :
    cursor.At (out ++ more) c :=
  ⟨h.reads, h.holds.append more, h.ended⟩

/-- What the chains are answered with in one round. -/
def roundOf (agent : SnmpAgent) (chains : List Chain) : List Octets :=
  chains.map fun c => (c.step agent).2

/-- A round writes the chains' answers while they fit, and leaves a cursor on
each chain if all did. -/
def RoundOk (agent : SnmpAgent) (list : BindList) (chains : List Chain) (out : Octets) (r : Round) : Prop :=
  r.1 = (appendFitting list.fits (roundOf agent chains) out).1 ∧
    if (appendFitting list.fits (roundOf agent chains) out).2 then
      ∃ cursors, r.2 = .ok (some cursors) ∧
        List.Forall₂ (Cursor.At r.1) cursors (chains.map fun c => (c.step agent).1)
    else r.2 = .ok none

/-- The first chain of a round, and the rest of the round. -/
theorem RoundOk.cons (hreads : FittingReads agent list) (hc : c.Reads) {rest : Octets → Round}
    (hrest : RoundOk agent list chains (out ++ (c.step agent).2) (rest (out ++ (c.step agent).2))) :
    RoundOk agent list (c :: chains) out (pushCursor (c.write agent list out) out.length rest) := by
  have hround : roundOf agent (c :: chains) = (c.step agent).2 :: roundOf agent chains := rfl
  unfold RoundOk
  rw [hround, appendFitting, Chain.write]
  by_cases hfits : list.fits out (c.step agent).2.length = true
  · rw [if_pos hfits, if_pos hfits]
    obtain ⟨hstep, tag, octets, hbind, hread⟩ := c.step_reads hreads hc (le_budget_of_fits hfits)
    obtain ⟨start, stop, hname, hholds⟩ := nameIn_bindOf out hread
    rw [← hbind] at hname hholds
    have hstepped : ∀ ended : Bool, (if ended then Step.ended else Step.found) ≠ .full ∧
        ((if ended then Step.ended else Step.found) == .ended) = ended := by decide
    obtain ⟨hfull, hended⟩ := hstepped (c.step agent).1.ended
    rw [pushCursor, if_neg hfull]
    rw [hname, hended]
    dsimp only
    obtain ⟨hout, hcursors⟩ := hrest
    refine ⟨hout, ?_⟩
    split
    · rename_i hall
      rw [if_pos hall] at hcursors
      obtain ⟨cursors, hok, hat⟩ := hcursors
      obtain ⟨more, hmore⟩ := @appendFitting_extends _ list.fits (roundOf agent chains)
        (out ++ (c.step agent).2)
      refine ⟨_, by rw [hok]; rfl, List.Forall₂.cons ?_ hat⟩
      rw [hout, hmore]
      exact Cursor.At.append ⟨hstep, hholds, rfl⟩ more
    · rename_i hnot
      rw [if_neg hnot] at hcursors
      rw [hcursors]
      rfl
  · rw [if_neg hfits, if_neg hfits]
    exact ⟨rfl, rfl⟩

/-! ## Rounds -/

/-- The chains of a request's names. -/
def VarsAre (vars : List VarBind) (chains : List Chain) : Prop :=
  List.Forall₂ (fun var c => chainOf var = some c ∧ Readable var.oid .endOfMibView []) vars chains

theorem chainOf_eq {var : VarBind} (h : chainOf var = some c) :
    decodeBerBody var.oid = some c.arcs ∧ c.name = var.oid ∧ c.ended = false := by
  obtain ⟨arcs, harcs, rfl⟩ := Option.map_eq_some_iff.mp h
  exact ⟨harcs, rfl, rfl⟩

theorem all_ended {cursors : List Cursor} (h : List.Forall₂ (Cursor.At out) cursors chains) :
    cursors.all Cursor.ended = chains.all Chain.ended := by
  induction h with
  | nil => rfl
  | cons hat _ ih => rw [all_cons, all_cons, hat.ended, ih]

/-- The answers of the rounds after one that left these chains. -/
def laterAnswers (agent : SnmpAgent) (max : Nat) (chains : List Chain) : List Octets :=
  if chains.all Chain.ended then [] else bulkRoundsOf agent max chains

theorem bulkRoundsOf_succ (max : Nat) (chains : List Chain) :
    bulkRoundsOf agent (max + 1) chains = roundOf agent chains ++
      laterAnswers agent max (chains.map fun c => (c.step agent).1) := by
  simp only [bulkRoundsOf, roundOf, laterAnswers, map_map, all_map]
  rfl

/-- A lone chain's answers while it has a successor. -/
theorem bulkRoundsOf_found (hc : c.ended = false) {i : Instance}
    (hs : agent.successor c.arcs = some i) (max : Nat) :
    bulkRoundsOf agent (max + 1) [c] =
      i.varbind :: bulkRoundsOf agent max [⟨oidBody i.oid, i.arcs, false⟩] := by
  have hstep : c.step agent = (⟨oidBody i.oid, i.arcs, false⟩, i.varbind) := by
    rw [Chain.step, hc, if_neg Bool.false_ne_true, hs]
  simp [bulkRoundsOf_succ, roundOf, laterAnswers, hstep]

theorem bulkRoundsOf_ended (hc : c.ended = false) (hs : agent.successor c.arcs = none) (max : Nat) :
    bulkRoundsOf agent (max + 1) [c] = [bindOf c.name .endOfMibView []] := by
  have hstep : c.step agent = ({ c with ended := true }, bindOf c.name .endOfMibView []) := by
    rw [Chain.step, hc, if_neg Bool.false_ne_true, hs]
  simp [bulkRoundsOf_succ, roundOf, laterAnswers, hstep]

variable (hagent : agent.WellServed)

include hagent

theorem nonRepeaters_eq (h : VarsAre vars chains) (out : Octets) :
    nonRepeaters agent list vars out = ((appendFitting list.fits (roundOf agent chains) out).1,
      .ok !(appendFitting list.fits (roundOf agent chains) out).2) := by
  unfold nonRepeaters
  induction h generalizing out with
  | nil => rfl
  | @cons var c vars chains hvar _ ih =>
    obtain ⟨hname, hoctets, hended⟩ := chainOf_eq hvar.1
    have hround : roundOf agent (c :: chains) = (c.step agent).2 :: roundOf agent chains := rfl
    rw [nextEach, hname]
    dsimp only
    rw [next_eq_write hagent hended (show (Name.request var.oid).Is out c.name from hoctets.symm), hround,
      appendFitting, Chain.write]
    by_cases hfits : list.fits out (c.step agent).2.length = true
    · have hfull : (if (c.step agent).1.ended then Step.ended else Step.found) ≠ .full := by
        cases (c.step agent).1.ended <;> decide
      rw [if_pos hfits, if_pos hfits, if_neg hfull, ih]
    · rw [if_neg hfits, if_neg hfits, if_pos rfl]
      rfl

variable (hreads : FittingReads agent list)

include hreads

theorem firstRound_ok (h : VarsAre vars chains) (out : Octets) :
    RoundOk agent list chains out (firstRound agent list vars out) := by
  induction h generalizing out with
  | nil => exact ⟨rfl, [], rfl, .nil⟩
  | @cons var c vars chains hvar _ ih =>
    obtain ⟨hname, hoctets, hended⟩ := chainOf_eq hvar.1
    rw [firstRound, hname]
    dsimp only
    rw [next_eq_write hagent hended (show (Name.request var.oid).Is out c.name from hoctets.symm)]
    exact .cons hreads ⟨hoctets ▸ hname, hoctets ▸ hvar.2⟩ (ih _)

theorem laterRound_ok {cursors : List Cursor} (h : List.Forall₂ (Cursor.At out) cursors chains) :
    RoundOk agent list chains out (laterRound agent list cursors out) := by
  induction cursors generalizing chains out with
  | nil =>
    cases h
    exact ⟨rfl, [], rfl, .nil⟩
  | cons cursor cursors ih =>
    obtain ⟨c, chains, hat, hrest, rfl⟩ := forall₂_cons_left_iff.mp h
    have hname : (Name.response cursor.start cursor.stop).Is out c.name := hat.holds
    have hmore : ∀ more, List.Forall₂ (Cursor.At (out ++ more)) cursors chains :=
      fun more => hrest.imp fun _ _ hat => hat.append more
    unfold laterRound
    cases hended : cursor.ended with
    | true =>
      rw [if_pos rfl, endOfMibView_eq_write (hat.ended.symm.trans hended) hname]
      exact .cons hreads hat.reads (ih (hmore _))
    | false =>
      rw [if_neg Bool.false_ne_true, hat.holds.sliceOf_eq, hat.reads.name]
      dsimp only
      rw [next_eq_write hagent (hat.ended.symm.trans hended) hname]
      exact .cons hreads hat.reads (ih (hmore _))

theorem laterRounds_eq (max : Nat) : ∀ {cursors : List Cursor} {chains : List Chain} {out : Octets},
      List.Forall₂ (Cursor.At out) cursors chains → laterRounds agent list max cursors out =
        ((appendFitting list.fits (laterAnswers agent max chains) out).1, .ok .complete) := by
  induction max with
  | zero =>
    intro cursors chains out _
    have hnone : laterAnswers agent 0 chains = [] := by
      unfold laterAnswers
      split <;> rfl
    rw [hnone]
    rfl
  | succ max ih =>
    intro cursors chains out h
    rw [laterRounds, all_ended h, laterAnswers]
    by_cases hall : chains.all Chain.ended = true
    · rw [if_pos hall, if_pos hall]
      rfl
    · rw [if_neg hall, if_neg hall, bulkRoundsOf_succ, appendFitting_append]
      obtain ⟨hout, hround⟩ := laterRound_ok hagent hreads h
      dsimp only
      rw [hout] at hround ⊢
      by_cases hfitted : (appendFitting list.fits (roundOf agent chains) out).2 = true
      · rw [if_pos hfitted] at hround
        obtain ⟨cursors', hok, hat⟩ := hround
        rw [if_pos hfitted, hok]
        exact ih hat
      · rw [if_neg hfitted] at hround
        rw [if_neg hfitted, hround]

/-! ## A lone repeater -/

/-- The loop has its chain's last name in the `VarBind` it wrote last, or at
the cursor it started from. -/
def LastAt (first : Cursor) (last : Option Nat) (out : Octets) (c : Chain) : Prop :=
  ∃ name, lastName first out last = .ok name ∧ Holds out name.1 name.2 c.name

/-- The loop of `column` and what follows it, with `max` rounds left. -/
theorem columnEnd_eq (first : Cursor) (max : Nat) :
    ∀ {c : Chain} {out : Octets} {emitted : Nat} {last : Option Nat}, c.ended = false →
    LastAt first last out c → columnEnd list first (emitted + max)
        (emitEach (columnEmit list) max (agent.after c.arcs false) ⟨out, emitted, false, last⟩) =
      ((appendFitting list.fits (bulkRoundsOf agent max [c]) out).1, .ok .complete) := by
  induction max with
  | zero =>
    simp [emitEach, columnEnd, bulkRoundsOf, appendFitting]
  | succ max ih =>
    intro c out emitted last hc hlast
    have hsucc := successor_eq agent c.arcs
    cases hafter : agent.after c.arcs false with
    | nil =>
      rw [hafter] at hsucc
      obtain ⟨name, hname, hholds⟩ := hlast
      have hnot : (false || emitted == emitted + (max + 1)) = false := by simp
      rw [bulkRoundsOf_ended hc hsucc, emitEach, columnEnd, hnot, if_neg Bool.false_ne_true]
      dsimp only
      rw [hname]
      dsimp only
      rw [endOfMibView_eq (show (Name.response name.1 name.2).Is out c.name from hholds), appendFitting]
      split <;> rfl
    | cons i rest =>
      rw [hafter] at hsucc
      rw [bulkRoundsOf_found hc hsucc, appendFitting]
      by_cases hfits : list.fits out i.varbind.length = true
      · have hemit : columnEmit list ⟨out, emitted, false, last⟩ i.oid i.varbind =
            (⟨out ++ i.varbind, emitted + 1, false, some out.length⟩, true) := by
          simp [columnEmit, hfits]
        have hmem : i ∈ agent.instances := mem_of_find?_eq_some hsucc
        obtain ⟨value, hvalue, hread⟩ := hreads i hmem (le_budget_of_fits hfits)
        obtain ⟨start, stop, hname, hholds⟩ := nameIn_bindOf out hread
        rw [← instanceVarbind, ← hvalue] at hname hholds
        have hih := @ih ⟨oidBody i.oid, i.arcs, false⟩ (out ++ i.varbind) (emitted + 1) (some out.length) rfl
          ⟨_, hname, hholds⟩
        rw [after_cons hagent hafter, Nat.add_assoc, Nat.add_comm 1 max] at hih
        rw [if_pos hfits, emitEach, hemit]
        exact hih
      · have hemit : columnEmit list ⟨out, emitted, false, last⟩ i.oid i.varbind =
            (⟨out, emitted, true, last⟩, false) := by
          simp [columnEmit, hfits]
        rw [if_neg hfits, emitEach, hemit]
        rfl

theorem column_eq {first : Cursor} (h : first.At out c) (rounds : Nat) :
    column agent list first rounds out =
      ((appendFitting list.fits (laterAnswers agent rounds [c]) out).1, .ok .complete) := by
  have hall : [c].all Chain.ended = c.ended := by simp
  rw [column, h.ended, laterAnswers, hall]
  cases hended : c.ended with
  | true => rfl
  | false =>
    rw [if_neg Bool.false_ne_true]
    cases rounds with
    | zero => rfl
    | succ rounds =>
      have hloop := @columnEnd_eq agent list hagent hreads first (rounds + 1) c out 0 none hended
        ⟨_, rfl, h.holds⟩
      rw [Nat.zero_add] at hloop
      rw [← hloop, if_neg (by simp), h.holds.sliceOf_eq, h.reads.name]
      dsimp only
      rw [bulk_eq, ahead_eq hagent]

/-! ## The whole list -/

theorem repeaters_eq (h : VarsAre vars chains) (maxRepetitions : Nat) (out : Octets) :
    repeaters agent list vars maxRepetitions out =
      ((appendFitting list.fits (bulkRoundsOf agent maxRepetitions chains) out).1, .ok .complete) := by
  unfold repeaters
  cases maxRepetitions with
  | zero => rfl
  | succ rounds =>
    obtain ⟨hout, hround⟩ := firstRound_ok hagent hreads h out
    rw [if_neg (Nat.succ_ne_zero rounds), bulkRoundsOf_succ, appendFitting_append, Nat.add_sub_cancel]
    dsimp only
    rw [hout] at hround ⊢
    by_cases hfitted : (appendFitting list.fits (roundOf agent chains) out).2 = true
    · rw [if_pos hfitted] at hround
      obtain ⟨cursors, hok, hat⟩ := hround
      rw [if_pos hfitted, hok]
      split
      · rename_i e
        exact nomatch e
      · rename_i e
        exact nomatch e
      · rename_i cursor e
        obtain rfl : cursors = [cursor] := Option.some.inj (Except.ok.inj e)
        obtain ⟨c, rest, hfirst, hnil, hchains⟩ := forall₂_cons_left_iff.mp hat
        cases hnil
        rw [hchains]
        exact column_eq hagent hreads hfirst rounds
      · rename_i e
        obtain rfl := Option.some.inj (Except.ok.inj e)
        exact laterRounds_eq hagent hreads rounds hat
    · rw [if_neg hfitted] at hround
      rw [if_neg hfitted, hround]

theorem getBulk_eq (h : VarsAre vars chains) (nonRepeaterCount maxRepetitions : Nat) (out : Octets) :
    getBulk agent list vars nonRepeaterCount maxRepetitions out =
      ((appendFitting list.fits (bulkSequence agent chains nonRepeaterCount maxRepetitions) out).1,
        .ok .complete) := by
  have htake : chains.take (min vars.length nonRepeaterCount) = chains.take nonRepeaterCount := by
    rw [h.length_eq, take_eq_take_iff]
    omega
  have hdrop : chains.drop (min vars.length nonRepeaterCount) = chains.drop nonRepeaterCount := by
    rcases Nat.le_total vars.length nonRepeaterCount with hle | hle
    · rw [Nat.min_eq_left hle, drop_of_length_le h.length_eq.ge,
        drop_of_length_le (h.length_eq ▸ hle)]
    · rw [Nat.min_eq_right hle]
  have hfirst : VarsAre (vars.take (min vars.length nonRepeaterCount)) (chains.take nonRepeaterCount) :=
    htake ▸ forall₂_take _ h
  have hrest : VarsAre (vars.drop (min vars.length nonRepeaterCount)) (chains.drop nonRepeaterCount) :=
    hdrop ▸ forall₂_drop _ h
  unfold getBulk bulkSequence
  dsimp only
  rw [nonRepeaters_eq hagent hfirst, appendFitting_append]
  show _ = (Prod.fst (if (appendFitting list.fits (roundOf agent _) out).2 then _ else _), _)
  cases hfitted : (appendFitting list.fits (roundOf agent (chains.take nonRepeaterCount)) out).2 with
  | true =>
    exact repeaters_eq hagent hreads hrest maxRepetitions _
  | false => rfl

end steps

/-! ## For every request -/

/-- A system instance that fits the budget reads. -/
def SystemReads (agent : SnmpAgent) (budget : Nat) : Prop :=
  ∀ i ∈ agent.system, (agent.systemVarbind i).length ≤ budget → (agent.systemVarbind i).length < 4294967296

theorem fittingReads {agent : SnmpAgent} {list : BindList} (hagent : agent.WellServed)
    (hsystem : SystemReads agent list.reply.budget) : FittingReads agent list := by
  intro i hi hfits
  obtain ⟨value, hvalue, -, hpublished⟩ := hagent.stored i hi
  refine ⟨value, hvalue, ?_⟩
  rcases mem_mergeKeys.mp hi with hmem | hmem
  · obtain ⟨p, -, rfl⟩ := mem_map.mp hmem
    exact hpublished rfl
  · obtain ⟨s, hs, rfl⟩ := mem_map.mp hmem
    have hlen : (instanceVarbind s.oid value).length < 4294967296 := hvalue ▸ hsystem s hs hfits
    exact .of_length hlen

theorem varsAre {vars : VarList} {names : List Chain} (h : vars.vars.map chainOf = names.map some) :
    VarsAre vars.vars names := by
  have hread : ∀ var ∈ vars.vars, Readable var.oid .endOfMibView [] := fun var hvar =>
    vars.readable hvar .endOfMibView
  generalize vars.vars = vs at h hread
  induction vs generalizing names with
  | nil =>
    obtain rfl : names = [] := map_eq_nil_iff.mp h.symm
    exact .nil
  | cons var vs ih =>
    cases names with
    | nil => exact nomatch h
    | cons c names =>
      obtain ⟨hc, hrest⟩ := cons.inj h
      exact .cons ⟨hc, hread var mem_cons_self⟩
        (ih hrest fun v hv => hread v (mem_cons_of_mem _ hv))

/-- What `getBulk` writes is the longest front of the reference sequence that
the budget holds, and `column` writes what the rounds write for its cursor,
which is on the name of a `VarBind` in the response. -/
theorem getBulk_longest {settings : AgentSettings} {table : MibTable} (htable : Reachable settings table)
    (crypto : Crypto) (bound : Bound) (uptimeMillis : Nat) (counters : Counter → Nat) (reply : Reply)
    (hsystem : SystemReads (SnmpAgent.bind crypto settings bound table uptimeMillis counters) reply.budget)
    (vars : VarList) (names : List Chain) (hnames : vars.vars.map chainOf = names.map some)
    (nonRepeaterCount maxRepetitions : Nat) (out : Octets) :
    let agent := SnmpAgent.bind crypto settings bound table uptimeMillis counters
    let sequence := bulkSequence agent names nonRepeaterCount maxRepetitions
    (∃ k ≤ sequence.length,
      getBulk agent ⟨out.length, reply⟩ vars.vars nonRepeaterCount maxRepetitions out =
          (out ++ (sequence.take k).flatten, .ok .complete) ∧
        ∀ j, 0 < j → j ≤ sequence.length →
          (reply.envelope.len reply.id 0 0 (sequence.take j).flatten.length ≤ reply.budget ↔ j ≤ k)) ∧
      ∀ (rounds start at' stop : Nat) (ended : Bool) (arcs : List Nat) (name octets before after : Octets)
        (tag : Tag), Readable name tag octets → decodeBerBody name = some arcs →
        nameIn (before ++ bindOf name tag octets) before.length = .ok (at', stop) →
        column agent ⟨start, reply⟩ ⟨at', stop, ended⟩ rounds (before ++ bindOf name tag octets ++ after) =
          laterRounds agent ⟨start, reply⟩ rounds [⟨at', stop, ended⟩]
            (before ++ bindOf name tag octets ++ after) := by
  have hagent := wellServed_bind htable crypto bound uptimeMillis counters
  generalize SnmpAgent.bind crypto settings bound table uptimeMillis counters = agent at hsystem hagent
  have hreads : ∀ start, FittingReads agent ⟨start, reply⟩ := fun start => fittingReads hagent hsystem
  constructor
  · obtain ⟨k, hk, hout, hlongest⟩ := appendFitting_longest
      (fun _ _ => reply.envelope.len_mono reply.id 0 0)
      (fun out' n => (rfl : BindList.fits ⟨out.length, reply⟩ out' n = _))
      (bulkSequence agent names nonRepeaterCount maxRepetitions) (Nat.le_refl out.length)
    refine ⟨k, hk, ?_, fun j hpos hj => ?_⟩
    · rw [getBulk_eq hagent (hreads _) (varsAre hnames), hout]
    · rw [← hlongest j hpos hj, Nat.sub_self, Nat.zero_add]
  · intro rounds start at' stop ended arcs name octets before after tag hread hname hin
    obtain ⟨at'', stop', hin', hholds⟩ := nameIn_bindOf before hread
    obtain ⟨rfl, rfl⟩ := Prod.mk.inj (Except.ok.inj (hin.symm.trans hin'))
    have hcursor : Cursor.At (before ++ bindOf name tag octets ++ after) ⟨at', stop, ended⟩
        ⟨name, arcs, ended⟩ := ⟨⟨hname, hread.exception⟩, hholds.append after, rfl⟩
    rw [column_eq hagent (hreads start) hcursor rounds,
      laterRounds_eq hagent (hreads start) rounds (.cons hcursor .nil)]

/-- Two names in a request, `1.3` and the published instance `1.3.6.1.9.0`. -/
def twoNames : VarList where
  body := [0x30, 5, 6, 1, 0x2b, 5, 0, 0x30, 9, 6, 5, 0x2b, 6, 1, 9, 0, 5, 0]
  vars := [⟨[0x2b], 5, []⟩, ⟨[0x2b, 6, 1, 9, 0], 5, []⟩]
  checked := by decide

def twoChains : List Chain :=
  [⟨[0x2b], [1, 3], false⟩, ⟨[0x2b, 6, 1, 9, 0], [1, 3, 6, 1, 9, 0], false⟩]

/-- Both as repeaters, ten rounds of them, in a message of 200 octets. -/
theorem getBulk_longest_twoNames : ∃ table, Reachable publicSettings table ∧
    table.slots.toList.map (fun p => p.1.arcs) = [[1, 3, 6, 1, 9, 0]] ∧
      let agent := SnmpAgent.bind identityCrypto publicSettings ⟨[], [], ⟨0, 0⟩⟩ table 0 fun _ => 0
      let reply : Reply := ⟨.community 1 publicSettings.community, 1, 200⟩
      let sequence := bulkSequence agent twoChains 0 10
      ∃ k ≤ sequence.length,
        getBulk agent ⟨0, reply⟩ twoNames.vars 0 10 [] = ((sequence.take k).flatten, .ok .complete) := by
  obtain ⟨table, htable, hslots⟩ := reachable_counter
  obtain ⟨⟨k, hk, hwritten, -⟩, -⟩ := getBulk_longest htable identityCrypto ⟨[], [], ⟨0, 0⟩⟩ 0 (fun _ => 0)
    ⟨.community 1 publicSettings.community, 1, 200⟩ (fun _ _ hfits => Nat.lt_of_le_of_lt hfits (by decide)) twoNames
    twoChains rfl 0 10 []
  exact ⟨table, htable, hslots, k, hk, hwritten⟩

end Sonda.Snmp
