import Sonda.Framework.Closure
import Sonda.Impl.Snmp.Responder
import Sonda.Proof.Snmp.V3Layout

/-!
# Responses in their envelopes

What a varbind list is wrapped in depends on the list's octets alone:
`Envelope.write_eq` and `Envelope.length_message` hold for whatever closure
appends them, in every version.
-/

namespace Sonda.Snmp

open Framework
open V3 (intOctets length_intOctets)

variable (request : V3.V3Message) (engine : Snapshot) (user : Option LocalizedUser)
  (isPrivate : Bool) (envelope : Envelope)

/-- A PDU with the varbind list `varbinds`. -/
def pduOctets (pdu : Tag) (id status index : Int) (varbinds : Octets) : Octets :=
  tlv pdu (intOctets id ++ (intOctets status ++ (intOctets index ++ tlv .sequence varbinds)))

theorem length_pduOctets (pdu : Tag) (id status index : Int) (varbinds : Octets) :
    (pduOctets pdu id status index varbinds).length =
      tlvLen (i64Len id + i64Len status + i64Len index + tlvLen varbinds.length) := by
  simp only [pduOctets, length_tlv, List.length_append, length_intOctets, Nat.add_assoc]

/-- A message of the community-based versions. -/
def communityOctets (version : Int) (community : Octets) (pdu : Octets) : Octets :=
  tlv .sequence (intOctets version ++ (tlv .octetString community ++ pdu))

section writers

variable {α : Type} {a : α} {varbinds : Octets → Octets × α} {body : Octets}
variable (envelope : Envelope) (crypto : Crypto) (salts : SaltCounter) (out : Octets)

theorem writePdu_eq (h : ∀ out, varbinds out = (out ++ body, a)) (out : Octets) (pdu : Tag)
    (id status index : Int) :
    writePdu out pdu id status index varbinds = (out ++ pduOctets pdu id status index body, a) := by
  refine writeTlvWith_eq ?_
  dsimp only
  rw [writeI64_eq, writeI64_eq, writeI64_eq, writeTlvWith_eq (h _)]
  simp only [List.append_assoc, intOctets]

theorem writeMessage_eq (h : ∀ out, varbinds out = (out ++ body, a)) (out : Octets) (version : Int)
    (community : Octets) (pdu : Tag) (id status index : Int) :
    writeMessage out version community pdu id status index varbinds =
      (out ++ communityOctets version community (pduOctets pdu id status index body), a) := by
  refine writeTlvWith_eq ?_
  dsimp only
  rw [writeI64_eq, writeOctets_eq, writePdu_eq h]
  simp only [List.append_assoc, intOctets]

/-! ## Whichever closure appends the list -/

theorem callsOnce_writeTlvWith (tag : Tag) :
    CallsOnce fun f : Octets → Octets × α => writeTlvWith out tag f :=
  (CallsOnce.call (out ++ [tag.byte] ++ [0])).map fun r : Octets × α =>
    (patchLength r.1 (out ++ [tag.byte]).length, r.2)

theorem callsOnce_writePdu (pdu : Tag) (id status index : Int) :
    CallsOnce fun f : Octets → Octets × α => writePdu out pdu id status index f :=
  (callsOnce_writeTlvWith out pdu).comp fun _ => callsOnce_writeTlvWith _ _

theorem V3.callsOnce_writeData (engine : Snapshot) (privacy : Option PrivProtocol) (out : Octets) :
    CallsOnce fun f : Octets → Octets × α => V3.writeData engine privacy f out := by
  have hscoped : ∀ out, CallsOnce fun f : Octets → Octets × α => V3.writeScoped engine f out :=
    fun out => (callsOnce_writeTlvWith out .sequence).comp fun _ => .call _
  cases privacy with
  | none => exact (hscoped out).map fun r => (r.1, (0, r.2))
  | some protocol =>
    exact (callsOnce_writeTlvWith out .octetString).comp fun out => (hscoped out).map fun r =>
      (V3.resize r.1 (out.length + paddedLen protocol (r.1.length - out.length)),
        (paddedLen protocol (r.1.length - out.length), r.2))

theorem V3.callsOnce_writeMessage (req : V3.V3Message) (engine : Snapshot) (out : Octets)
    (user : Option LocalizedUser) (salts : Option SaltCounter) :
    CallsOnce fun f : Octets → Octets × α => V3.writeMessage crypto req engine out user salts f := by
  have hbody : ∀ authLen privacy out,
      CallsOnce fun f : Octets → Octets × α => V3.writeBody req engine authLen privacy f out :=
    fun authLen privacy out => (V3.callsOnce_writeData engine privacy _).map fun r =>
      (r.1, V3.Laid.mk _ _ r.2.1 r.2.2)
  obtain ⟨at', hat⟩ := (callsOnce_writeTlvWith (α := V3.Laid α) out .sequence).comp
    (hbody (V3.authLen user) (V3.privacyOf user salts.isSome))
  refine ⟨at', fun f g h => ?_⟩
  have heq : writeTlvWith out .sequence (V3.writeBody req engine _ _ f) =
    writeTlvWith out .sequence (V3.writeBody req engine _ _ g) := hat f g h
  unfold V3.writeMessage
  dsimp only
  rw [heq]

variable (id status index : Int)

theorem Envelope.callsOnce_write :
    CallsOnce fun f : Octets → Octets × α => envelope.write crypto salts out id status index f := by
  cases envelope with
  | community version name =>
    have hmessage : CallsOnce fun f : Octets → Octets × α =>
        Snmp.writeMessage out version name .response id status index f :=
      (callsOnce_writeTlvWith out .sequence).comp fun _ => callsOnce_writePdu _ _ _ _ _
    exact hmessage.map fun r => (r, salts)
  | v3 request engine user salted =>
    have hmessage : ∀ user salts, CallsOnce fun f : Octets → Octets × α =>
        V3.writeMessage crypto request engine out user salts fun out =>
          writePdu out .response id status index f :=
      fun user salts => (V3.callsOnce_writeMessage crypto request engine out user salts).comp
        fun out => callsOnce_writePdu out _ _ _ _
    cases user with
    | none => exact (hmessage none none).map fun r => (r.1, salts)
    | some user =>
      cases salted with
      | false => exact (hmessage (some user) none).map fun r => (r.1, salts)
      | true => exact (hmessage (some user) (some salts)).map fun r => (r.1, r.2.getD salts)

/-- The response whose varbind list is `body`. -/
def Envelope.message (envelope : Envelope) (crypto : Crypto) (salts : SaltCounter) (id status index : Int)
    (body : Octets) : Octets :=
  (envelope.write crypto salts [] id status index fun out => (out ++ body, ())).1.1

/-- The salt counters after that response. -/
def Envelope.saltsAfter (envelope : Envelope) (crypto : Crypto) (salts : SaltCounter)
    (id status index : Int) (body : Octets) : SaltCounter :=
  (envelope.write crypto salts [] id status index fun out => (out ++ body, ())).2

theorem Envelope.write_eq (h : ∀ out, varbinds out = (out ++ body, a)) :
    envelope.write crypto salts [] id status index varbinds =
      ((envelope.message crypto salts id status index body, a),
        envelope.saltsAfter crypto salts id status index body) := by
  have hunit : ∀ out : Octets, (fun out : Octets => (out ++ body, ())) out = (out ++ body, ()) := fun _ => rfl
  unfold message saltsAfter write
  cases envelope with
  | community version name =>
    dsimp only
    rw [writeMessage_eq h, writeMessage_eq hunit]
  | v3 request engine user salted =>
    have hpdu := fun out => writePdu_eq h out .response id status index
    have hpdu' := fun out => writePdu_eq hunit out .response id status index
    dsimp only
    split
    · unfold V3.writePrivateResponse
      rw [V3.writeMessage_const crypto request engine [] _ _ hpdu,
        V3.writeMessage_const crypto request engine [] _ _ hpdu']
    · unfold V3.writeResponse
      rw [V3.writeMessage_const crypto request engine [] _ _ hpdu,
        V3.writeMessage_const crypto request engine [] _ _ hpdu']

/-- A closure that appends something is called on one buffer, and the response
holds what it appends there. -/
theorem Envelope.write_at (varbinds : Octets → Octets × α) :
    ∃ out, ∀ body, (varbinds out).1 = out ++ body →
      envelope.write crypto salts [] id status index varbinds =
        ((envelope.message crypto salts id status index body, (varbinds out).2),
          envelope.saltsAfter crypto salts id status index body) := by
  obtain ⟨out, hout⟩ := envelope.callsOnce_write (α := α) crypto salts [] id status index
  refine ⟨out, fun body hbody => ?_⟩
  have hat : varbinds out = (fun at' => (at' ++ body, (varbinds out).2)) out := by
    dsimp only
    rw [← hbody]
  have hconst := hout varbinds (fun at' => (at' ++ body, (varbinds out).2)) hat
  dsimp only at hconst
  rw [hconst, envelope.write_eq crypto salts id status index fun _ => rfl]

/-- Lengths are computed the way the writers nest them. -/
theorem Envelope.length_write (h : ∀ out, varbinds out = (out ++ body, a)) :
    (envelope.write crypto salts out id status index varbinds).1.1.length =
      out.length + envelope.len id status index body.length := by
  unfold write len
  cases envelope with
  | community version name =>
    dsimp only
    rw [writeMessage_eq h, List.length_append, communityOctets, length_tlv, List.length_append,
      List.length_append, length_intOctets, length_tlv, length_pduOctets, Snmp.messageLen,
      ← Nat.add_assoc (i64Len _)]
  | v3 request engine user salted =>
    have hpdu := fun out => writePdu_eq h out .response id status index
    have hlen := fun user salts => V3.length_writeMessage crypto request engine out user salts hpdu
    simp only [length_pduOctets] at hlen
    dsimp only
    split
    · exact hlen _ _
    · exact hlen _ _

theorem Envelope.length_message (body : Octets) :
    (envelope.message crypto salts id status index body).length = envelope.len id status index body.length :=
  (envelope.length_write crypto salts [] id status index fun _ => rfl).trans (Nat.zero_add _)

/-- `len` is what `write` appends to any buffer, whatever the closure assigns. -/
theorem Envelope.len_appended (id status index : Int) (body : Octets) (a : α) :
    (envelope.write crypto salts out id status index fun out => (out ++ body, a)).1.1.length =
      out.length + envelope.len id status index body.length :=
  envelope.length_write crypto salts out id status index fun _ => rfl

end writers

/-- The octets that are sent, if any. -/
def Answered.response (a : Answered) : Option Octets := if a.outcome = .sent then some a.out else none

/-- An error response that fits. -/
theorem errorResponse_sent (crypto : Crypto) (reply : Reply) (salts : SaltCounter) {status index : Int}
    {body : Octets} (h : reply.envelope.len reply.id status index body.length ≤ reply.budget) :
    errorResponse crypto reply salts status index body =
      ⟨.sent, reply.envelope.message crypto salts reply.id status index body, [],
        reply.envelope.saltsAfter crypto salts reply.id status index body⟩ := by
  rw [errorResponse, if_neg (Nat.not_lt.mpr h)]
  rfl

/-! ## Lengths -/

theorem paddedLen_mono (protocol : PrivProtocol) {n m : Nat} (h : n ≤ m) :
    paddedLen protocol n ≤ paddedLen protocol m := by
  cases protocol with
  | des =>
    simp only [paddedLen, desBlock]
    omega
  | _ => exact h

theorem V3.messageLen_mono {n m : Nat} (h : n ≤ m) :
    V3.messageLen request engine user isPrivate n ≤ V3.messageLen request engine user isPrivate m := by
  have hscoped : tlvLen (tlvLen engine.id.length + tlvLen 0 + n) ≤
      tlvLen (tlvLen engine.id.length + tlvLen 0 + m) := tlvLen_mono (Nat.add_le_add_left h _)
  refine tlvLen_mono (Nat.add_le_add_left ?_ _)
  split
  · exact tlvLen_mono (paddedLen_mono _ hscoped)
  · exact hscoped

theorem V3.le_messageLen (n : Nat) : n ≤ V3.messageLen request engine user isPrivate n := by
  have hscoped := le_tlvLen (tlvLen engine.id.length + tlvLen 0 + n)
  refine le_trans ?_ (le_tlvLen _)
  split
  · rename_i protocol _
    have hpadded := V3.le_paddedLen protocol (tlvLen (tlvLen engine.id.length + tlvLen 0 + n))
    have hdata := le_tlvLen (paddedLen protocol (tlvLen (tlvLen engine.id.length + tlvLen 0 + n)))
    omega
  · omega

/-- No longer fields, no longer response. -/
theorem Envelope.len_le (id : Int) {status status' index index' : Int} {n m : Nat}
    (hstatus : i64Len status ≤ i64Len status') (hindex : i64Len index ≤ i64Len index') (h : n ≤ m) :
    envelope.len id status index n ≤ envelope.len id status' index' m := by
  have hlist : tlvLen n ≤ tlvLen m := tlvLen_mono h
  have hpdu : tlvLen (i64Len id + i64Len status + i64Len index + tlvLen n) ≤
      tlvLen (i64Len id + i64Len status' + i64Len index' + tlvLen m) := tlvLen_mono (by omega)
  unfold len
  cases envelope with
  | community version name => exact tlvLen_mono (Nat.add_le_add_left hpdu _)
  | v3 request engine user salted =>
    dsimp only
    split
    · exact V3.messageLen_mono _ _ _ _ hpdu
    · exact V3.messageLen_mono _ _ _ _ hpdu

/-- A response is no shorter for more varbinds. -/
theorem Envelope.len_mono (id status index : Int) {n m : Nat} (h : n ≤ m) :
    envelope.len id status index n ≤ envelope.len id status index m :=
  envelope.len_le id (Nat.le_refl _) (Nat.le_refl _) h

theorem i64Len_zero_le (v : Int) : i64Len 0 ≤ i64Len v := by
  obtain ⟨hpos, -⟩ := length_signedSpan v
  exact tlvLen_mono hpos

theorem i64Len_le (v : Int) : i64Len v ≤ 10 := by
  obtain ⟨-, hle⟩ := length_signedSpan v
  exact tlvLen_mono hle

theorem tlvLen_le {n : Nat} (h : n < 4294967296) : tlvLen n ≤ n + 6 := by
  have hcount : digitCount 8 n ≤ 4 := digitCount_le (by decide) h
  unfold tlvLen lengthLen
  split <;> omega

section

variable {request engine} {n : Nat} (hid : engine.id.length ≤ 32) (hn : n < 2147483648)

include hid hn

theorem V3.scopedLen_le : tlvLen (tlvLen engine.id.length + tlvLen 0 + n) ≤ n + 46 := by
  have hengine := tlvLen_le (n := engine.id.length)
  have hname : tlvLen 0 = 2 := by decide
  have hle := tlvLen_le (n := tlvLen engine.id.length + tlvLen 0 + n)
  omega

/-- What an SNMPv3 envelope adds to the user name and the PDU. -/
theorem V3.messageLen_le (hname : request.usm.user.length ≤ 1073741824) :
    V3.messageLen request engine user isPrivate n ≤ request.usm.user.length + n + 258 := by
  have hglobal : tlvLen (i64Len request.msgId + i64Len V3.msgMaxSize + tlvLen 1 + i64Len usmModel) ≤ 39 := by
    have hmsgId := i64Len_le request.msgId
    have hmaxSize := i64Len_le V3.msgMaxSize
    have hmodel := i64Len_le usmModel
    have hflags : tlvLen 1 = 3 := by decide
    exact (tlvLen_le (by omega)).trans (by omega)
  have hparams : usmBodyLen engine request.usm.user (V3.authLen user)
      (V3.privLen (V3.privacyOf user isPrivate)) ≤ request.usm.user.length + 132 := by
    have hboots := i64Len_le engine.boots
    have htime := i64Len_le engine.time
    have hauth := V3.authLen_le user
    have hpriv := V3.privLen_le (V3.privacyOf user isPrivate)
    have hidLen := tlvLen_le (n := engine.id.length)
    have hnameLen := tlvLen_le (n := request.usm.user.length)
    have hauthLen := tlvLen_le (n := V3.authLen user)
    have hprivLen := tlvLen_le (n := V3.privLen (V3.privacyOf user isPrivate))
    unfold usmBodyLen
    omega
  have hscoped := V3.scopedLen_le hid hn
  unfold V3.messageLen
  dsimp only
  generalize usmBodyLen engine request.usm.user (V3.authLen user)
    (V3.privLen (V3.privacyOf user isPrivate)) = m at hparams ⊢
  generalize tlvLen (tlvLen engine.id.length + tlvLen 0 + n) = k at hscoped ⊢
  have hversion := i64Len_le V3.version
  have hinner := tlvLen_le (n := m)
  have hsecurity := tlvLen_le (n := tlvLen m)
  split
  · rename_i protocol _
    have hpadded : paddedLen protocol k ≤ k + 7 := by
      unfold paddedLen desBlock
      split <;> omega
    have hdata := tlvLen_le (n := paddedLen protocol k)
    exact (tlvLen_le (by omega)).trans (by omega)
  · exact (tlvLen_le (by omega)).trans (by omega)

end

/-- A response is longer than its varbind list. -/
theorem Envelope.le_len (id status index : Int) (n : Nat) : n ≤ envelope.len id status index n := by
  have hlist := le_tlvLen n
  have hpdu := le_tlvLen (i64Len id + i64Len status + i64Len index + tlvLen n)
  have hn : n ≤ tlvLen (i64Len id + i64Len status + i64Len index + tlvLen n) := by omega
  unfold len
  cases envelope with
  | community version name => exact hn.trans ((Nat.le_add_left _ _).trans (le_tlvLen _))
  | v3 request engine user salted =>
    dsimp only
    split
    · exact hn.trans (V3.le_messageLen _ _ _ _ _)
    · exact hn.trans (V3.le_messageLen _ _ _ _ _)

end Sonda.Snmp
