import Sonda.Impl.Snmp.Responder

/-!
# What the responder counts and warns about

Each datagram raises one counter that says what it was, and perhaps others
that say more about an answer (`respondNoting_counts`). A peer is warned about
at most once in `warnInterval`, with a bounded map of peers
(`warnings_spaced`): a peer whose entry is dropped was warned about long
enough ago, which is the invariant `Warned.seen`.
-/

namespace Sonda.Snmp

open Framework List V3

/-! ## Counters -/

/-- The counters that say more about an answer, which has one of its own. -/
def Counter.isDetail : Counter → Bool
  | v1 | v3 | tooBig => true
  | _ => false

def answerCounters : List Counter := [.get, .getNext, .getBulk, .setRefused]

/-- One counter is raised, once, and others with it only for an answer. -/
def CountsOnce (counted : List Counter) : Prop :=
  ∃ c, c.isDetail = false ∧ (∀ d, d.isDetail = false → counted.count d = if c = d then 1 else 0) ∧
    ∀ d ∈ counted, d.isDetail = true → c ∈ answerCounters

theorem countsOnce_single {c : Counter} (h : c.isDetail = false) : CountsOnce [c] := by
  refine ⟨c, h, fun d _ => ?_, fun d hd hdetail => ?_⟩
  · simp [count_singleton]
  · rw [mem_singleton.mp hd, h] at hdetail
    cases hdetail

theorem countsOnce_answer {c : Counter} {l r : List Counter} (hc : c ∈ answerCounters)
    (hl : ∀ d ∈ l, d.isDetail = true) (hr : ∀ d ∈ r, d.isDetail = true) :
    CountsOnce (l ++ c :: r) := by
  have hdetail : c.isDetail = false := by revert c; decide
  refine ⟨c, hdetail, fun d hd => ?_, fun _ _ _ => hc⟩
  have hnot : ∀ {s : List Counter}, (∀ d ∈ s, d.isDetail = true) → s.count d = 0 :=
    fun hs => count_eq_zero_of_not_mem fun h => by simp [hs d h] at hd
  rw [count_append, count_cons, hnot hl, hnot hr]
  simp

section answers

variable (crypto : Crypto) (agent : SnmpAgent)

theorem errorResponse_counted (reply : Reply) (salts : SaltCounter) (status index : Int)
    (varbinds : Octets) : (errorResponse crypto reply salts status index varbinds).counted = [] := by
  unfold errorResponse
  split <;> rfl

theorem noSuchName_counted (reply : Reply) (salts : SaltCounter) (vars : VarList) (index : Nat) :
    ∀ d ∈ (noSuchName crypto reply salts vars index).counted, d.isDetail = true := by
  unfold noSuchName
  dsimp only
  split
  · simp [errorResponse_counted]
  · simp [tooBig, Counter.isDetail]

theorem answerPdu_counts (salts : SaltCounter) (pdu : Pdu) (envelope : Envelope) (budget : Nat) :
    CountsOnce (answerPdu crypto agent salts pdu envelope budget).counted := by
  unfold answerPdu
  split
  · exact countsOnce_single rfl
  · rename_i counter id vars hparts
    have hc : counter ∈ answerCounters := by
      cases pdu <;> cases hparts <;> decide
    dsimp only
    split
    · exact countsOnce_single rfl
    · refine countsOnce_answer hc ?_ ?_
      · split
        · simp
        · simp [tooBig, Counter.isDetail]
        · exact noSuchName_counted crypto _ _ _ _
      · unfold Envelope.counted
        repeat' split
        all_goals simp [Counter.isDetail]

theorem answerReport_counts (clock : Clock) (request : V3Message) (stat : UsmStat)
    (authenticated : Bool) :
    CountsOnce (answerReport crypto agent clock request stat authenticated).counted := by
  have hstat : stat.counter.isDetail = false := by cases stat <;> rfl
  unfold answerReport
  split <;> exact countsOnce_single hstat

/-- Every datagram, whatever it holds and whether or not it is answered,
raises one counter that says what it was, and the other counters only with
that of an answer. -/
theorem respondNoting_counts (clock : Clock) (datagram : Octets) (budget : Nat) :
    CountsOnce (respondNoting crypto agent clock datagram budget).counted := by
  unfold respondNoting answer answerV3 undecodable
  dsimp only
  repeat' split
  all_goals first
    | exact answerPdu_counts crypto agent _ _ _ _
    | exact answerReport_counts crypto agent clock _ _ _
    | exact countsOnce_single rfl

end answers

/-! ## Warnings -/

section warnings

variable {IpAddr : Type}

/-- The warnings of one kind, and when `due` was last called. -/
structure Warner (IpAddr : Type) where
  warned : PeerWarnings IpAddr := {}
  clock : Nat := 0

/-- A warned peer is in the map, or may be warned about again. -/
structure Warned (s : Warner IpAddr) (log : List (IpAddr × Nat)) : Prop where
  bound : s.warned.last.keys.length ≤ warnedPeers
  seen : ∀ c ∈ log, c.2 + warnInterval ≤ s.clock ∨ ∃ t, ⟨c.1, t⟩ ∈ s.warned.last.entries ∧ c.2 ≤ t
  spaced : log.Pairwise fun a b => a.1 = b.1 → a.2 + warnInterval ≤ b.2

variable {s s' : Warner IpAddr} {log es : List (IpAddr × Nat)} {peer : IpAddr} {now : Nat}

/-- A peer warned about by `t` may be again, if the warning at `t` is old. -/
theorem warnDue_some {c t : Nat} (h : warnDue (some t) now = true) (hc : c ≤ t) :
    c + warnInterval ≤ now := by
  rw [warnDue, Option.all_some, decide_eq_true_iff] at h
  rw [warnInterval] at h ⊢
  omega

theorem Warned.later (h : Warned s log) (hclock : s.clock ≤ now) : Warned ⟨s.warned, now⟩ log :=
  ⟨h.bound, fun c hc => (h.seen c hc).imp_left fun hold => hold.trans hclock, h.spaced⟩

/-- The entries `retain` drops are of peers that may be warned about again. -/
theorem Warned.retain (h : Warned s log) (hclock : s.clock ≤ now) :
    Warned ⟨s.warned.retain now, now⟩ log := by
  refine ⟨(filter_sublist.map _).length_le.trans h.bound, fun c hc => ?_, h.spaced⟩
  rcases (h.later hclock).seen c hc with hold | ⟨t, ht, hle⟩
  · exact .inl hold
  · by_cases hdue : warnDue (some t) now = true
    · exact .inl (warnDue_some hdue hle)
    · exact .inr ⟨t, mem_filter.mpr ⟨ht, by simp [hdue]⟩, hle⟩

variable [DecidableEq IpAddr]

/-- A call of `due` for a peer at a time. The event is the call, if it
answered true. -/
def warner : Machine (Warner IpAddr) (IpAddr × Nat) (IpAddr × Nat) where
  step s call :=
    let r := s.warned.due call.1 call.2
    some (⟨r.2, call.2⟩, if r.1 then [call] else [])

/-- The earlier warnings of a peer that is due are old. -/
theorem Warned.due (h : Warned s log) (hclock : s.clock ≤ now)
    (hdue : warnDue (s.warned.last.lookup peer) now = true) :
    ∀ c ∈ log, c.1 = peer → c.2 + warnInterval ≤ now := by
  rintro c hc rfl
  rcases (h.later hclock).seen c hc with hold | ⟨t, ht, hle⟩
  · exact hold
  · rw [Option.mem_def.mp (AList.mem_lookup_iff.mpr ht)] at hdue
    exact warnDue_some hdue hle

theorem Warned.insert (h : Warned s log)
    (hroom : (s.warned.last.insert peer s.clock).keys.length ≤ warnedPeers)
    (hdue : ∀ c ∈ log, c.1 = peer → c.2 + warnInterval ≤ s.clock) :
    Warned ⟨⟨s.warned.last.insert peer s.clock⟩, s.clock⟩ (log ++ [(peer, s.clock)]) := by
  refine ⟨hroom, fun c hc => ?_, ?_⟩
  · rcases mem_append.mp hc with hc | hc
    · by_cases hp : c.1 = peer
      · exact .inl (hdue c hc hp)
      refine (h.seen c hc).imp_right fun ⟨t, ht, hle⟩ => ⟨t, ?_, hle⟩
      rw [← AList.mem_lookup_iff, AList.lookup_insert_ne hp]
      exact AList.mem_lookup_iff.mpr ht
    · rw [mem_singleton.mp hc]
      exact .inr ⟨_, AList.mem_lookup_iff.mp (AList.lookup_insert _), Nat.le_refl _⟩
  · rw [pairwise_append]
    refine ⟨h.spaced, pairwise_singleton _ _, fun a ha b hb hp => ?_⟩
    rw [mem_singleton.mp hb] at hp ⊢
    exact hdue a ha hp

theorem length_insert_le {n : Nat} {l : AList fun _ : IpAddr => Nat} (hl : l.keys.length ≤ n)
    (h : l.keys.length < n ∨ peer ∈ l) : (l.insert peer now).keys.length ≤ n := by
  rw [AList.keys_insert, length_cons]
  rcases h with h | h
  · exact (Nat.succ_le_succ erase_sublist.length_le).trans h
  · have hmem := AList.mem_keys.mp h
    rwa [length_erase_of_mem hmem, Nat.sub_add_cancel (length_pos_of_mem hmem)]

theorem warned_step {call : IpAddr × Nat} (h : Warned s log) (hclock : s.clock ≤ call.2)
    (hs : warner.step s call = some (s', es)) : Warned s' (log ++ es) := by
  obtain ⟨rfl, rfl⟩ := Prod.mk.inj (Option.some.inj hs)
  unfold PeerWarnings.due
  split
  · simpa using h.later hclock
  · rename_i hdue
    have hpeer := h.due hclock (by simpa using hdue)
    split
    · have hkept := h.retain hclock
      dsimp only
      split
      · simpa using hkept
      · rename_i hroom
        exact hkept.insert (length_insert_le hkept.bound (.inl (Nat.not_le.mp hroom))) hpeer
    · rename_i hroom
      refine (h.later hclock).insert (length_insert_le h.bound ?_) hpeer
      by_contra hnot
      rw [not_or, Nat.not_lt] at hnot
      exact hroom hnot

/-- For any calls at times that do not decrease, the map holds at most
`warnedPeers` peers, and two calls that answered true for one peer are at least
`warnInterval` apart. -/
theorem warnings_spaced (h : warner.Run (fun s call => s.clock ≤ call.2) {} s log) :
    s.warned.last.keys.length ≤ 1024 ∧
      log.Pairwise fun a b => a.1 = b.1 → a.2 + 60 * 1000000000 ≤ b.2 :=
  have hw := h.invariant (I := Warned) ⟨Nat.zero_le _, fun _ hc => absurd hc not_mem_nil, .nil⟩ warned_step
  ⟨hw.bound, hw.spaced⟩

/-- A peer warned about twice, a minute apart. -/
theorem warnings_spaced_minute : ∃ s log, warner.Run (fun s call => s.clock ≤ call.2) {} s log ∧
    log = [(true, 0), (true, 60000000000)] ∧ s.warned.last.keys.length ≤ 1024 :=
  Machine.run_reaches_and [(true, 0), (true, 59999999999), (true, 60000000000)]
    (by decide) fun _ _ h _ => (warnings_spaced h).1

end warnings

end Sonda.Snmp
