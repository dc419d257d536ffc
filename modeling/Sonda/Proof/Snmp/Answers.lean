import Sonda.Proof.Snmp.Envelopes
import Sonda.Proof.Snmp.Successors

/-!
# What is sent

Every writer of varbinds appends to the buffer, and checks each time that what
the list then holds fits the budget (`BindList.Checked`); only a list that is
still empty was not checked. `answerPdu_sent`: a PDU that is answered is
answered with a response in its envelope, whose list either fits or is empty.

The names a GetBulk has answered are ranges of the buffer: a cursor in range
(`Cursor.InRange`) stays so as the buffer grows.
-/

namespace Sonda.Snmp

open Framework List

variable (crypto : Crypto) (reply : Reply) (salts : SaltCounter)

/-! ## Lists that were checked -/

/-- `out'` is `out` with more varbinds, the list checked after the last. -/
def BindList.Checked (list : BindList) (out out' : Octets) : Prop :=
  ∃ more, out' = out ++ more ∧ (more ≠ [] →
    list.reply.envelope.len list.reply.id 0 0 (out'.length - list.start) ≤ list.reply.budget)

namespace BindList

variable {list : BindList} {out out' out'' : Octets}

theorem Checked.refl (out : Octets) : list.Checked out out :=
  ⟨[], (append_nil _).symm, fun h => absurd rfl h⟩

theorem Checked.trans (h : list.Checked out out') (h' : list.Checked out' out'') :
    list.Checked out out'' := by
  obtain ⟨more, rfl, hmore⟩ := h
  obtain ⟨more', rfl, hmore'⟩ := h'
  refine ⟨more ++ more', append_assoc _ _ _, fun hne => ?_⟩
  by_cases hlast : more' = []
  · subst hlast
    rw [append_nil] at hne ⊢
    exact hmore hne
  · exact hmore' hlast

theorem Checked.start_le (h : list.Checked out out') (hstart : list.start ≤ out.length) :
    list.start ≤ out'.length := by
  obtain ⟨more, rfl, -⟩ := h
  rw [length_append]
  omega

theorem Checked.holds (h : list.Checked out out') {start stop : Nat} {name : Octets}
    (hname : Holds out start stop name) : Holds out' start stop name := by
  obtain ⟨more, rfl, -⟩ := h
  exact hname.append more

theorem checked_append (hstart : list.start ≤ out.length) {block : Octets}
    (hfits : list.fits out block.length = true) : list.Checked out (out ++ block) := by
  refine ⟨block, rfl, fun _ => ?_⟩
  have hlen : (out ++ block).length - list.start = out.length - list.start + block.length := by
    rw [length_append]
    omega
  rw [hlen]
  exact of_decide_eq_true hfits

end BindList

/-! ## Get and GetNext -/

section writers

variable (agent : SnmpAgent) {list : BindList} {out : Octets}
variable (rounds : Nat) (vars : List VarBind)

theorem putException_checked (hstart : list.start ≤ out.length) (name : Name) {octets out' : Octets}
    {tag : Tag} (hname : name.Is out octets) (h : putException list name tag out = some out') :
    list.Checked out out' := by
  unfold putException at h
  split at h
  · rename_i hfits
    cases h
    rw [hname.len_eq, ← length_exception octets tag] at hfits
    rw [writeException_eq hname]
    exact BindList.checked_append hstart hfits
  · exact nomatch h

theorem get_checked : ∀ {out : Octets}, list.start ≤ out.length →
    list.Checked out (get agent list vars out).1 := by
  induction vars with
  | nil => exact fun _ => .refl _
  | cons var vars ih =>
    intro out hstart
    have hrest : ∀ {out'}, list.Checked out out' → list.Checked out (get agent list vars out').1 :=
      fun hchecked => hchecked.trans (ih (hchecked.start_le hstart))
    unfold get
    split
    · exact .refl _
    · rename_i name _
      cases agent.lookup name with
      | value varbind =>
        dsimp only
        by_cases hfits : list.fits out varbind.length = true
        · rw [if_pos hfits]
          exact hrest (BindList.checked_append hstart hfits)
        · rw [if_neg hfits]
          exact .refl _
      | noSuchInstance | noSuchObject =>
        dsimp only
        split
        · rename_i hout
          exact hrest (putException_checked hstart (.request var.oid) rfl hout)
        · exact .refl _

theorem scanV1_checked (index : Nat) (full : Bool) (answers : List (Option (Option Octets)))
    (hstart : list.start ≤ out.length) : list.Checked out (scanV1 list index full answers out).1 := by
  fun_induction scanV1 list index full answers out with
  | case1 | case2 | case3 => exact .refl _
  | case4 _ _ _ _ _ hfits ih =>
    have hchecked := BindList.checked_append hstart (Bool.and_eq_true_iff.mp hfits).2
    exact hchecked.trans (ih (hchecked.start_le hstart))
  | case5 _ _ _ _ _ _ ih => exact ih hstart

theorem endOfMibView_checked (hstart : list.start ≤ out.length) (name : Name) {octets : Octets}
    (hname : name.Is out octets) : list.Checked out (endOfMibView list name out).1 := by
  rw [endOfMibView_eq hname]
  split
  · exact BindList.checked_append hstart (by assumption)
  · exact .refl _

theorem next_checked (arcs : List Nat) (hstart : list.start ≤ out.length) (name : Name)
    {octets : Octets} (hname : name.Is out octets) :
    list.Checked out (next agent list arcs name out).1 := by
  rw [next_eq]
  split
  · exact endOfMibView_checked hstart name hname
  · split
    · exact BindList.checked_append hstart (by assumption)
    · exact .refl _

theorem nextEach_checked {α : Type} (full complete : α) : ∀ {out : Octets}, list.start ≤ out.length →
    list.Checked out (nextEach agent list full complete vars out).1 := by
  induction vars with
  | nil => exact fun _ => .refl _
  | cons var vars ih =>
    intro out hstart
    unfold nextEach
    split
    · exact .refl _
    · rename_i arcs _
      have hnext := next_checked agent arcs hstart (.request var.oid) rfl
      dsimp only
      split
      · exact hnext
      · exact hnext.trans (ih (hnext.start_le hstart))

/-! ## GetBulk -/

/-- A cursor on octets that are in the buffer. -/
def Cursor.InRange (c : Cursor) (out : Octets) : Prop := ∃ name, Holds out c.start c.stop name

theorem Cursor.InRange.of_checked {c : Cursor} {out' : Octets} (h : c.InRange out)
    (hchecked : list.Checked out out') : c.InRange out' := by
  obtain ⟨name, hname⟩ := h
  exact ⟨name, hchecked.holds hname⟩

theorem nameIn_ok {start : Nat} {range : Nat × Nat} (h : nameIn out start = .ok range) :
    ∃ name, Holds out range.1 range.2 name := by
  obtain ⟨⟨body, r⟩, hbody, h⟩ := bind_ok h
  obtain ⟨⟨name, r'⟩, hname, h⟩ := bind_ok h
  cases h
  have hle : start ≤ out.length := by
    by_contra hlt
    obtain ⟨ls, -, happ, -⟩ := Reader.expect_ok hbody
    rw [drop_of_length_le (by omega)] at happ
    exact nomatch happ
  have hin : Holds out body.start body.stop body.octets := ((holds_drop hle).expect hbody).1
  exact ⟨_, (hin.expect hname).1⟩

/-- A round appends checked varbinds, and its cursors are in range. -/
def Round.Sound (list : BindList) (out : Octets) (r : Round) : Prop :=
  list.Checked out r.1 ∧ ∀ cursors, r.2 = .ok (some cursors) → ∀ c ∈ cursors, c.InRange r.1

theorem Round.Sound.nil (out : Octets) : Round.Sound list out (out, .ok (some [])) := by
  refine ⟨.refl _, fun cursors h c hc => ?_⟩
  obtain rfl := Option.some.inj (Except.ok.inj h)
  exact nomatch hc

theorem Round.Sound.error {out : Octets} (e : BerError) : Round.Sound list out (out, .error e) :=
  ⟨.refl _, nofun⟩

theorem pushCursor_sound {r : Octets × Step} (hr : list.Checked out r.1) (start : Nat)
    {rest : Octets → Round} (hrest : Round.Sound list r.1 (rest r.1)) :
    Round.Sound list out (pushCursor r start rest) := by
  unfold pushCursor
  split
  · exact ⟨hr, nofun⟩
  · split
    · exact ⟨hr, nofun⟩
    · rename_i range hrange
      refine ⟨hr.trans hrest.1, fun cursors h c hc => ?_⟩
      dsimp only at h ⊢
      cases hs : (rest r.1).2 with
      | error e =>
        rw [hs] at h
        exact nomatch h
      | ok cursors' =>
        rw [hs] at h
        obtain ⟨later, rfl, rfl⟩ := Option.map_eq_some_iff.mp (Except.ok.inj h)
        rcases mem_cons.mp hc with rfl | hc
        · obtain ⟨name, hname⟩ := nameIn_ok hrange
          exact ⟨name, hrest.1.holds hname⟩
        · exact hrest.2 later hs c hc

theorem firstRound_sound : ∀ {out : Octets}, list.start ≤ out.length →
    Round.Sound list out (firstRound agent list vars out) := by
  induction vars with
  | nil => exact fun _ => .nil _
  | cons var vars ih =>
    intro out hstart
    unfold firstRound
    split
    · exact .error _
    · rename_i arcs _
      have hnext := next_checked agent arcs hstart (.request var.oid) rfl
      exact pushCursor_sound hnext _ (ih (hnext.start_le hstart))

theorem laterRound_sound (cursors : List Cursor) : ∀ {out : Octets}, list.start ≤ out.length →
    (∀ c ∈ cursors, c.InRange out) → Round.Sound list out (laterRound agent list cursors out) := by
  induction cursors with
  | nil => exact fun _ _ => .nil _
  | cons cursor cursors ih =>
    intro out hstart hrange
    obtain ⟨name, hname⟩ := hrange cursor mem_cons_self
    have hpush : ∀ r : Octets × Step, list.Checked out r.1 → ∀ start,
        Round.Sound list out (pushCursor r start (laterRound agent list cursors)) :=
      fun r hr start => pushCursor_sound hr start (ih (hr.start_le hstart) fun c hc =>
        (hrange c (mem_cons_of_mem _ hc)).of_checked hr)
    unfold laterRound
    split
    · exact hpush _ (endOfMibView_checked hstart (.response cursor.start cursor.stop) hname) _
    · split
      · exact .error _
      · exact hpush _ (next_checked agent _ hstart (.response cursor.start cursor.stop) hname) _

theorem laterRounds_checked : ∀ {cursors : List Cursor} {out : Octets},
    list.start ≤ out.length → (∀ c ∈ cursors, c.InRange out) →
    list.Checked out (laterRounds agent list rounds cursors out).1 := by
  induction rounds with
  | zero => exact fun _ _ => .refl _
  | succ rounds ih =>
    intro cursors out hstart hrange
    obtain ⟨hchecked, hcursors⟩ := laterRound_sound agent cursors hstart hrange
    unfold laterRounds
    dsimp only
    split
    · exact .refl _
    · split
      · exact hchecked
      · exact hchecked
      · rename_i cursors' hok
        exact hchecked.trans (ih (hchecked.start_le hstart) (hcursors cursors' hok))

theorem column_checked {first : Cursor} (hstart : list.start ≤ out.length)
    (hrange : first.InRange out) : list.Checked out (column agent list first rounds out).1 := by
  obtain ⟨octets, hfirst⟩ := hrange
  unfold column
  split
  · exact .refl _
  · split
    · exact .refl _
    · rename_i arcs _
      have hcolumn := @bulk_invariant _ agent (columnEmit list) false
        (fun c => list.Checked out c.out) ?_ arcs rounds ⟨out, 0, false, none⟩ (.refl _)
      · unfold columnEnd
        generalize agent.bulk arcs rounds false _ _ = c at hcolumn ⊢
        have hend : ∀ range : Nat × Nat, (∃ name, Holds c.out range.1 range.2 name) →
            list.Checked out (endOfMibView list (.response range.1 range.2) c.out).1 := by
          intro range ⟨name, hname⟩
          exact hcolumn.trans (endOfMibView_checked (hcolumn.start_le hstart)
            (.response range.1 range.2) hname)
        split
        · exact hcolumn
        · split
          · exact hcolumn
          · rename_i range hname
            refine hend range ?_
            unfold lastName at hname
            split at hname
            · exact nameIn_ok hname
            · cases hname
              exact ⟨octets, hcolumn.holds hfirst⟩
      · intro c _ varbind hc
        unfold columnEmit
        split
        · exact hc
        · rename_i hfits
          exact hc.trans (BindList.checked_append (hc.start_le hstart) (by simpa using hfits))

theorem repeaters_checked (maxRepetitions : Nat) (hstart : list.start ≤ out.length) :
    list.Checked out (repeaters agent list vars maxRepetitions out).1 := by
  obtain ⟨hchecked, hcursors⟩ := firstRound_sound agent vars hstart
  unfold repeaters
  dsimp only
  split
  · exact .refl _
  · split
    · exact hchecked
    · exact hchecked
    · rename_i cursor hok
      exact hchecked.trans (column_checked agent _ (hchecked.start_le hstart)
        (hcursors [cursor] hok cursor mem_cons_self))
    · rename_i cursors _ hok
      exact hchecked.trans (laterRounds_checked agent _ (hchecked.start_le hstart)
        (hcursors cursors hok))

theorem getBulk_checked (nonRepeaterCount maxRepetitions : Nat) (hstart : list.start ≤ out.length) :
    list.Checked out (getBulk agent list vars nonRepeaterCount maxRepetitions out).1 := by
  have hfirst := nextEach_checked agent (vars.take (min vars.length nonRepeaterCount)) true false hstart
  unfold getBulk nonRepeaters
  dsimp only
  split
  · exact hfirst
  · exact hfirst
  · exact hfirst.trans (repeaters_checked agent _ _ (hfirst.start_le hstart))

/-! ## Any PDU -/

theorem varbinds_checked (pdu : Pdu) (isV1 : Bool) (hstart : list.start ≤ out.length) :
    list.Checked out (pdu.varbinds agent list isV1 out).1 := by
  unfold Pdu.varbinds
  cases pdu with
  | get id vars =>
    dsimp only
    split
    · rw [getV1_eq]
      exact scanV1_checked _ _ _ hstart
    · exact get_checked agent _ hstart
  | getNext id vars =>
    dsimp only
    split
    · rw [getNextV1_eq]
      exact scanV1_checked _ _ _ hstart
    · exact nextEach_checked agent _ _ _ hstart
  | getBulk id nonRepeaters maxRepetitions vars => exact getBulk_checked agent _ _ _ hstart
  | set id vars =>
    dsimp only [echo]
    split
    · exact BindList.checked_append hstart (by assumption)
    · exact .refl _
  | other tag => exact .refl _

end writers

/-! ## Responses -/

/-- `octets` is a response in `envelope` that fits the budget, or that has no
varbinds and no longer fields than `0`. -/
def Envelope.Responds (envelope : Envelope) (crypto : Crypto) (id : Int) (budget : Nat)
    (octets : Octets) : Prop :=
  ∃ (salts : SaltCounter) (status index : Int) (body : Octets),
    octets = envelope.message crypto salts id status index body ∧
      (envelope.len id status index body.length ≤ budget ∨
        body = [] ∧ i64Len status = i64Len 0 ∧ i64Len index = i64Len 0)

theorem errorResponse_responds (status index : Int) (varbinds : Octets)
    (h : (errorResponse crypto reply salts status index varbinds).outcome = .sent) :
    reply.envelope.Responds crypto reply.id reply.budget
      (errorResponse crypto reply salts status index varbinds).out := by
  by_cases hfits : reply.envelope.len reply.id status index varbinds.length ≤ reply.budget
  · rw [errorResponse_sent crypto reply salts hfits]
    exact ⟨salts, status, index, varbinds, rfl, .inl hfits⟩
  · rw [errorResponse, if_pos (Nat.not_le.mp hfits)] at h
    cases h

theorem noSuchName_responds (vars : VarList) (index : Nat)
    (h : (noSuchName crypto reply salts vars index).outcome = .sent) :
    reply.envelope.Responds crypto reply.id reply.budget
      (noSuchName crypto reply salts vars index).out := by
  unfold noSuchName at h ⊢
  dsimp only at h ⊢
  split at h
  · rename_i hsent
    rw [if_pos hsent]
    exact errorResponse_responds crypto reply salts _ _ _ hsent
  · rename_i hsent
    rw [if_neg hsent]
    exact errorResponse_responds crypto reply _ _ _ _ h

/-- The error-status and the error-index of a whole response take an octet. -/
theorem Pdu.status_len (pdu : Pdu) (isV1 : Bool) :
    i64Len (pdu.status isV1).1 = i64Len 0 ∧ i64Len (pdu.status isV1).2 = i64Len 0 := by
  unfold Pdu.status
  repeat' split
  all_goals decide

/-- The answer to a PDU whose varbinds `body` were written with this result. -/
def answered (counter : Counter) (vars : VarList) (status : Int × Int) (body : Octets) :
    Except BerError Written → Answered
  | .error _ => ⟨.droppedOther, [], [.malformed],
      reply.envelope.saltsAfter crypto salts reply.id status.1 status.2 body⟩
  | .ok written =>
    let salts' := reply.envelope.saltsAfter crypto salts reply.id status.1 status.2 body
    let a : Answered :=
      match written with
      | .complete =>
        ⟨.sent, reply.envelope.message crypto salts reply.id status.1 status.2 body, [], salts'⟩
      | .full => tooBig crypto reply salts' vars
      | .noSuchName index => noSuchName crypto reply salts' vars index
    { a with counted := a.counted ++ counter :: reply.envelope.counted }

/-- The varbinds of an answer are written once, and the list was checked unless it is empty. -/
theorem answerPdu_eq (agent : SnmpAgent) {pdu : Pdu} {counter : Counter} {vars : VarList}
    (hparts : pdu.parts = some (counter, reply.id, vars)) : ∃ out body,
      let r := pdu.varbinds agent ⟨out.length, reply⟩ reply.envelope.isV1 out
      r.1 = out ++ body ∧
        (body ≠ [] → reply.envelope.len reply.id 0 0 body.length ≤ reply.budget) ∧
        answerPdu crypto agent salts pdu reply.envelope reply.budget =
          answered crypto reply salts counter vars (pdu.status reply.envelope.isV1) body r.2 := by
  obtain ⟨out, hat⟩ := reply.envelope.write_at crypto salts reply.id
    (pdu.status reply.envelope.isV1).1 (pdu.status reply.envelope.isV1).2 fun out =>
      pdu.varbinds agent ⟨out.length, reply⟩ reply.envelope.isV1 out
  obtain ⟨body, hbody, hfits⟩ := @varbinds_checked agent ⟨out.length, reply⟩ out pdu
    reply.envelope.isV1 (Nat.le_refl _)
  refine ⟨out, body, hbody, fun hne => ?_, ?_⟩
  · rw [hbody, length_append, Nat.add_sub_cancel_left] at hfits
    exact hfits hne
  · rw [answerPdu, hparts]
    dsimp only
    rw [hat body hbody]
    generalize (pdu.varbinds agent ⟨out.length, reply⟩ reply.envelope.isV1 out).2 = written
    rcases written with _ | _ | _ | _ <;> rfl

/-- A PDU that is answered is answered with a response. -/
theorem answerPdu_sent (agent : SnmpAgent) (salts : SaltCounter) (pdu : Pdu) (envelope : Envelope)
    (budget : Nat) (h : (answerPdu crypto agent salts pdu envelope budget).outcome = .sent) :
    ∃ counter id vars, pdu.parts = some (counter, id, vars) ∧
      envelope.Responds crypto id budget (answerPdu crypto agent salts pdu envelope budget).out := by
  cases hparts : pdu.parts with
  | none =>
    rw [answerPdu, hparts] at h
    exact nomatch h
  | some parts =>
    obtain ⟨counter, id, vars⟩ := parts
    refine ⟨counter, id, vars, rfl, ?_⟩
    obtain ⟨out, body, -, hfits, heq⟩ := answerPdu_eq crypto ⟨envelope, id, budget⟩ salts agent hparts
    rw [heq] at h ⊢
    generalize (pdu.varbinds agent _ _ out).2 = written at h ⊢
    rcases written with e | _ | _ | index
    · exact nomatch h
    · refine ⟨salts, _, _, body, rfl, ?_⟩
      obtain ⟨hstatus, hindex⟩ := pdu.status_len envelope.isV1
      by_cases hempty : body = []
      · exact .inr ⟨hempty, hstatus, hindex⟩
      · exact .inl ((envelope.len_le id hstatus.le hindex.le (Nat.le_refl _)).trans (hfits hempty))
    · exact errorResponse_responds crypto ⟨envelope, id, budget⟩ _ _ _ _ h
    · exact noSuchName_responds crypto ⟨envelope, id, budget⟩ _ vars index h

end Sonda.Snmp
