import Mathlib.Data.List.Dedup
import Mathlib.Data.List.Nodup
import Mathlib.Data.List.Perm.Subperm
import Sonda.Impl.Schedule.MetricsLoop
import Sonda.Proof.Schedule.Lifetime

/-!
# The markers of a close

The close emitter takes the set of series out of the statistics before any
marker is written, and `drain_writes` stops at the first write that fails:
the markers queued after it are lost with their series. `handed_iff` says when
a close hands every series over once. `Recalls` is what the statistics
remember of the events since the last close in every run (`recalls_step`), and
`close_markers_iff` joins the two.
-/

namespace Sonda.Proof.Schedule

open Sonda.Schedule Framework
open List hiding iterate

variable {s' : MetricsState} {r : StepResult} {gcfg : GatedConfig} {g : GatedState}
  {em : CloseEmitter} {es log' : List MetricsEvent} {e : MetricEvent} {inp : MetricsInput}
  {a n : Nat} {ts : SystemTime}

/-! ## The queue -/

/-- The encoder takes the marker of a series. -/
def Accepts (em : CloseEmitter) (ts : SystemTime) (key : CloseEmitKey) : Prop :=
  (em.encode (em.marker ts key)).isOk = true

instance (em : CloseEmitter) (ts : SystemTime) : DecidablePred (Accepts em ts) := fun _ =>
  inferInstanceAs (Decidable (_ = true))

/-- The markers queued are those the encoder takes. -/
theorem emitMarkers_writes :
    ∀ {series : List CloseEmitKey} {out : TickOutput}, (em.emitMarkers ts series out).1 = .ok () →
      (em.emitMarkers ts series out).2.writes.map (·.event) =
        out.writes.map (·.event) ++ (series.filter (Accepts em ts)).map (em.marker ts)
  | [], out, _ => by simp [CloseEmitter.emitMarkers]
  | key :: series, out, h => by
    unfold CloseEmitter.emitMarkers at h ⊢
    split at h <;> rename_i he
    · have ha : Accepts em ts key := by simp [Accepts, he, Except.isOk, Except.toBool]
      rw [emitMarkers_writes h, filter_cons_of_pos (by simpa using ha)]
      simp [TickOutput.pushMetric]
    · have ha : ¬ Accepts em ts key := by simp [Accepts, he, Except.isOk, Except.toBool]
      rw [emitMarkers_writes h, filter_cons_of_neg (by simpa using ha)]
      rfl
    · cases h

/-- A queue the encoder takes every marker of is filled to its end. -/
theorem emitMarkers_ok :
    ∀ {series : List CloseEmitKey} {out : TickOutput}, (∀ key ∈ series, Accepts em ts key) →
      (em.emitMarkers ts series out).1 = .ok ()
  | [], _, _ => rfl
  | key :: series, out, h => by
    have ha : Accepts em ts key := h key mem_cons_self
    have hrest : ∀ key ∈ series, Accepts em ts key := fun k hk => h k (mem_cons_of_mem _ hk)
    unfold CloseEmitter.emitMarkers
    split <;> rename_i he
    · exact emitMarkers_ok hrest
    · exact emitMarkers_ok hrest
    · simp [Accepts, he, Except.isOk, Except.toBool] at ha

/-- The `i`-th answer of the sink. -/
def Answers.at (answers : Answers) (i : Nat) : Except SondaError Unit := answers.getD i (.ok ())

theorem drainWrites_front : ∀ (cmds : List WriteCommand) (answers : Answers),
    (drainWrites cmds answers).1 <+: cmds
  | [], _ => prefix_rfl
  | cmd :: cmds, answers => by
    unfold drainWrites
    split
    · exact cons_prefix_cons.mpr ⟨rfl, drainWrites_front cmds answers.tail⟩
    · exact cons_prefix_cons.mpr ⟨rfl, nil_prefix⟩

/-- Every command reaches the sink if no write but the last fails. -/
theorem length_drainWrites_iff : ∀ {cmds : List WriteCommand} {answers : Answers},
    (drainWrites cmds answers).1.length = cmds.length ↔
      ∀ i, i + 1 < cmds.length → Answers.at answers i = .ok ()
  | [], _ => by simp [drainWrites]
  | cmd :: cmds, answers => by
    have htail (i : Nat) : Answers.at answers (i + 1) = Answers.at answers.tail i := by
      cases answers <;> simp [Answers.at]
    have hhead : Answers.at answers 0 = answers.headD (.ok ()) := by
      cases answers <;> simp [Answers.at]
    unfold drainWrites
    split <;> rename_i hd
    · rw [length_cons, length_cons, Nat.add_right_cancel_iff, length_drainWrites_iff]
      constructor
      · intro h i hi
        cases i with
        | zero => exact hhead.trans hd
        | succ i => exact (htail i).trans (h i (by omega))
      · intro h i hi
        exact (htail i).symm.trans (h (i + 1) (by omega))
    · constructor
      · intro h i hi
        simp only [length_cons, length_nil] at h hi
        omega
      · intro h
        cases cmds with
        | nil => rfl
        | cons c cs =>
          have := h 0 (by simp)
          rw [hhead, hd] at this
          cases this

theorem iterate_perm (series order : List CloseEmitKey) : (iterate series order).Perm series := by
  unfold iterate
  split
  · rename_i h
    exact isPerm_iff.mp h
  · exact List.Perm.refl _

/-! ## One close -/

section close

variable (em : CloseEmitter) (policy : OnSinkError) (st : ScenarioStats) (inp : CloseInput)

/-- The markers that reach the sink are the first ones of those the encoder
takes, or none. -/
theorem handed_cases : (∃ key ∈ iterate st.closeEmitSeries inp.order,
        ¬ Accepts em (closeTs st.lastEmitTs inp.systemNow) key) ∧
      (invokeCloseEmit em policy st inp).2.1.handed = [] ∨
    ∃ cmds : List WriteCommand, cmds.map (·.event) = ((iterate st.closeEmitSeries inp.order).filter
          (Accepts em (closeTs st.lastEmitTs inp.systemNow))).map
            (em.marker (closeTs st.lastEmitTs inp.systemNow)) ∧
      (invokeCloseEmit em policy st inp).2.1.handed =
        (drainWrites cmds inp.answers).1.map (·.event) := by
  unfold invokeCloseEmit
  dsimp only [ScenarioStats.drainCloseEmitSeries]
  split
  · rename_i e he
    refine .inl ⟨?_, rfl⟩
    by_contra hall
    rw [emitMarkers_ok fun key hkey => not_not.mp fun ha => hall ⟨key, hkey, ha⟩] at he
    cases he
  · rename_i he
    exact .inr ⟨_, by simpa using emitMarkers_writes he, rfl⟩

/-- What reaches the sink are markers of the series, with one timestamp. -/
theorem mem_handed {m : MetricEvent} (h : m ∈ (invokeCloseEmit em policy st inp).2.1.handed) :
    m.key ∈ st.closeEmitSeries ∧ m.timestamp = closeTs st.lastEmitTs inp.systemNow := by
  rcases handed_cases em policy st inp with ⟨-, hnil⟩ | ⟨cmds, hcmds, hh⟩
  · rw [hnil] at h
    cases h
  · rw [hh] at h
    have hm := ((drainWrites_front cmds inp.answers).map (·.event)).subset h
    rw [hcmds] at hm
    obtain ⟨key, hkey, rfl⟩ := mem_map.mp hm
    exact ⟨(iterate_perm _ _).subset (mem_of_mem_filter hkey), rfl⟩

/-- A close hands every series over once exactly if the encoder takes all the
markers and no write but the last fails. -/
theorem handed_iff (hnodup : st.closeEmitSeries.Nodup) : (∀ key ∈ st.closeEmitSeries,
      ((invokeCloseEmit em policy st inp).2.1.handed.map (·.key)).count key = 1) ↔
    (∀ key ∈ st.closeEmitSeries, Accepts em (closeTs st.lastEmitTs inp.systemNow) key) ∧
      ∀ i, i + 1 < st.closeEmitSeries.length → Answers.at inp.answers i = .ok () := by
  set ts := closeTs st.lastEmitTs inp.systemNow with hts
  set series := iterate st.closeEmitSeries inp.order with hseries
  have hperm : series.Perm st.closeEmitSeries := iterate_perm _ _
  have hkeys (keys : List CloseEmitKey) : (keys.map (em.marker ts)).map (·.key) = keys := by
    rw [map_map]
    exact map_id' keys
  rcases handed_cases em policy st inp with ⟨⟨key, hkey, hno⟩, hnil⟩ | ⟨cmds, hcmds, hh⟩
  · -- the encoder fails on a marker for good: nothing is written
    rw [hnil]
    refine ⟨fun h => ?_, fun h => absurd (h.1 key (hperm.subset hkey)) hno⟩
    have := h key (hperm.subset hkey)
    simp at this
  · have hlen : cmds.length = (series.filter (Accepts em ts)).length := by
      have := congrArg length hcmds
      simpa using this
    constructor
    · intro h
      -- the keys handed over are a sublist of the series that has them all
      have hsub : (((drainWrites cmds inp.answers).1.map (·.event)).map (·.key)).Sublist
          (series.filter (Accepts em ts)) := by
        have := (((drainWrites_front cmds inp.answers).map (·.event)).map (·.key)).sublist
        rwa [hcmds, hkeys] at this
      have hle : series.length ≤
          (((drainWrites cmds inp.answers).1.map (·.event)).map (·.key)).length := by
        refine ((hperm.nodup_iff.mpr hnodup).subperm fun key hkey => ?_).length_le
        rw [← count_pos_iff, ← hh, h key (hperm.subset hkey)]
        exact Nat.one_pos
      have hfilter : series.filter (Accepts em ts) = series :=
        filter_sublist.eq_of_length_le (hle.trans hsub.length_le)
      refine ⟨fun key hkey => ?_, ?_⟩
      · have := filter_eq_self.mp hfilter key (hperm.symm.subset hkey)
        simpa using this
      · rw [← hperm.length_eq]
        rw [hfilter] at hlen
        rw [← hlen, ← length_drainWrites_iff]
        have hle' := (drainWrites_front cmds inp.answers).length_le
        simp only [length_map] at hle
        omega
    · rintro ⟨hacc, hans⟩ key hkey
      have hfilter : series.filter (Accepts em ts) = series :=
        filter_eq_self.mpr fun k hk => by simpa using hacc k (hperm.subset hk)
      rw [hfilter] at hcmds hlen
      rw [← hperm.length_eq, ← hlen] at hans
      have hall : (drainWrites cmds inp.answers).1 = cmds :=
        (drainWrites_front cmds inp.answers).eq_of_length (length_drainWrites_iff.mpr hans)
      rw [hh, hall, hcmds, hkeys, hperm.count_eq]
      exact count_eq_one_of_mem hnodup hkey

end close

/-! ## What the statistics remember -/

variable (since : List MetricEvent)

/-- The events recorded since the last close, after another event. -/
def sinceNext : MetricsEvent → List MetricEvent
  | .gated _ => since
  | .recorded event => since ++ [event]
  | .closed _ => []

/-- The events recorded since the last close. -/
def sinceClose (log : List MetricsEvent) : List MetricEvent := log.foldl sinceNext []

theorem sinceClose_append (log es : List MetricsEvent) :
    sinceClose (log ++ es) = es.foldl sinceNext (sinceClose log) := foldl_append

theorem foldl_gated (es : List GatedEvent) :
    (es.map MetricsEvent.gated).foldl sinceNext since = since := by
  induction es with
  | nil => rfl
  | cons e es ih => exact ih

/-- The wall clock of the run at an instant. -/
def wallAt (cfg : MetricsConfig) (s : MetricsState) (instant : Nat) : SystemTime :=
  cfg.wallBase + (instant - s.gated.startedAt : Nat)

theorem wallAt_mono (cfg : MetricsConfig) (s : MetricsState) {c d : Nat} (h : c ≤ d) :
    wallAt cfg s c ≤ wallAt cfg s d :=
  Int.add_le_add_left (Int.ofNat_le.mpr (Nat.sub_le_sub_right h _)) _

/-- The tick callback has been called and its outcome is not yet taken up. -/
def Draining (pc : GatedPc) : Prop := ∃ seg i, pc = .segment seg ∧ seg.pc = .drain i

theorem draining_of_settles {pc : GatedPc} {edge : Option GateEdge} (h : settles pc edge = true) :
    Draining pc ∧ edge = none := by
  unfold settles at h
  split at h
  · exact ⟨⟨_, _, rfl, rfl⟩, rfl⟩
  · cases h

variable {cfg : MetricsConfig} {s : MetricsState} {log : List MetricsEvent}

/-- The statistics hold the series of the events since the last close and the
timestamp of the last one, and no event is later than the clock. -/
structure Recalls (cfg : MetricsConfig) (s : MetricsState) (log : List MetricsEvent) : Prop where
  tracks : s.stats.trackCloseSeries = true
  nodup : s.stats.closeEmitSeries.Nodup
  mem : ∀ key, key ∈ s.stats.closeEmitSeries ↔ ∃ e ∈ sinceClose log, e.key = key
  last : s.stats.lastEmitTs = (sinceClose log).getLast?.map (·.timestamp)
  sorted : (sinceClose log).Pairwise fun a b => a.timestamp ≤ b.timestamp
  past : ∀ e ∈ sinceClose log, e.timestamp ≤ wallAt cfg s s.gated.clock
  called : Draining s.gated.pc → (∀ e ∈ sinceClose log, e.timestamp ≤ s.wallClock) ∧
    s.wallClock ≤ wallAt cfg s s.gated.clock
  onTime : OnTime s.gated

theorem tickAt_some {es : List GatedEvent} (h : tickAt es = some a) :
    ∃ n e, .loop (.tick n e a) ∈ es := by
  obtain ⟨x, hx, hm⟩ := exists_of_findSome?_eq_some h
  split at hm
  · rename_i n e emitAt
    exact ⟨n, e, by rw [← Option.some.inj hm]; exact hx⟩
  · cases hm

theorem tickAt_ne_none {es : List GatedEvent} {e : Nat} (h : .loop (.tick n e a) ∈ es) :
    tickAt es ≠ none := by
  intro hn
  have := findSome?_eq_none_iff.mp hn _ h
  cases this

/-- A call waits for its outcome after the step that made it. -/
theorem draining_of_step {inp : GatedInput} (h : (gatedLoop gcfg).step g inp = some r)
    (hd : Draining r.1.pc) (hn : tickAt r.2 = none) :
    Draining g.pc ∧ settles g.pc inp.edge = false := by
  obtain ⟨seg', i, hpc', hi⟩ := hd
  obtain ⟨-, ⟨now, rfl⟩ | ⟨seg, hpc, hev⟩⟩ := segment_of_step h hpc'
  · cases hi
  · obtain ⟨s', es⟩ := r
    cases hev with
    | woken hh | moved hh => rw [hh] at hi; cases hi
    | called => exact absurd hn (tickAt_ne_none mem_cons_self)
    | observed hdrain hedge =>
      refine ⟨⟨seg, _, hpc, hdrain⟩, ?_⟩
      rw [hedge]
      unfold settles
      split
      · rename_i heq; cases heq
      · rfl
    | settled => cases hi

/-- The events a step of the gated loop adds to the log say nothing about the
statistics. -/
theorem sinceClose_step (es : List GatedEvent) (a : List MetricsEvent) :
    sinceClose (log ++ (es.map .gated ++ a)) = a.foldl sinceNext (sinceClose log) := by
  rw [sinceClose_append, foldl_append, foldl_gated]

/-- A tick is not called while another waits for its outcome. -/
theorem not_draining_of_tick {inp : GatedInput} (h : (gatedLoop gcfg).step g inp = some r)
    (ht : tickAt r.2 = some a) : ¬ Draining g.pc := by
  rintro ⟨seg, i, hpc, hi⟩
  obtain ⟨n, e, hm⟩ := tickAt_some ht
  obtain ⟨seg', hpc', hhead, -⟩ := tick_of_step h hm
  rw [hpc] at hpc'
  obtain rfl := GatedPc.segment.inj hpc'
  rw [hhead] at hi
  cases hi

/-- What one step of the run comes to. -/
structure StepOf (cfg : MetricsConfig) (s : MetricsState) (inp : MetricsInput) (s' : MetricsState)
    (es : List MetricsEvent) (r : StepResult) : Prop where
  step : ∃ ginp, (gatedLoop cfg.gated).step s.gated ginp = some r ∧ ginp.edge = inp.edge
  gated : s'.gated = r.1
  stats : s'.stats = (account cfg s inp r.2).1
  events : es = r.2.map .gated ++ (account cfg s inp r.2).2
  idle : tickAt r.2 = none → s'.wallClock = s.wallClock
  ticked : ∀ a, tickAt r.2 = some a → s'.wallClock = wallAt cfg s a

theorem stepOf_of_step (h : (metricsLoop cfg).step s inp = some (s', es)) :
    ∃ r, StepOf cfg s inp s' es r := by
  simp only [metricsLoop, metricsStep, Option.bind_eq_some_iff, Option.map_eq_some_iff,
    Prod.mk.injEq] at h
  obtain ⟨r, hr, t, ht, rfl, rfl⟩ := h
  refine ⟨r, ⟨_, hr, rfl⟩, rfl, rfl, rfl, fun hn => ?_, fun a ha => ?_⟩
  · rw [hn] at ht
    exact (Option.some.inj ht).symm
  · rw [ha] at ht
    simp only [checkedAdd] at ht
    split at ht
    · exact (Option.some.inj ht).symm
    · cases ht

/-- The clock and the ticks of a step, for the events already recorded. -/
theorem Recalls.times (h : Recalls cfg s log) (hs : StepOf cfg s inp s' es r) :
    (∀ t ≤ wallAt cfg s s.gated.clock, t ≤ wallAt cfg s' s'.gated.clock) ∧ OnTime s'.gated ∧
      (Draining s'.gated.pc →
        ((∃ a, tickAt r.2 = some a) ∨ settles s.gated.pc inp.edge = false) ∧
        (∀ e ∈ sinceClose log, e.timestamp ≤ s'.wallClock) ∧
        s'.wallClock ≤ wallAt cfg s' s'.gated.clock) := by
  obtain ⟨ginp, hstep, hedge⟩ := hs.step
  have hstart : s'.gated.startedAt = s.gated.startedAt := by
    rw [hs.gated]
    exact (frame_of_step hstep).startedAt
  have hclock : s.gated.clock ≤ s'.gated.clock := by
    rw [hs.gated]
    exact (frame_of_step hstep).clock
  have hwall : wallAt cfg s s.gated.clock ≤ wallAt cfg s' s'.gated.clock := by
    rw [wallAt, wallAt, hstart]
    exact wallAt_mono cfg s hclock
  refine ⟨fun t ht => Int.le_trans ht hwall, hs.gated ▸ onTime_step h.onTime hstep, fun hd => ?_⟩
  cases ht : tickAt r.2 with
  | some a =>
    obtain ⟨n, e, hm⟩ := tickAt_some ht
    obtain ⟨hlo, hhi⟩ := tick_between hstep h.onTime hm
    rw [← hs.gated] at hhi
    rw [hs.ticked a ht]
    refine ⟨.inl ⟨a, rfl⟩, fun x hx => Int.le_trans (h.past x hx) (wallAt_mono cfg s hlo), ?_⟩
    rw [wallAt, wallAt, hstart]
    exact wallAt_mono cfg s hhi
  | none =>
    rw [hs.idle ht]
    obtain ⟨hd, hno⟩ := draining_of_step hstep (hs.gated ▸ hd) ht
    obtain ⟨hx, hw⟩ := h.called hd
    exact ⟨.inr (hedge ▸ hno), hx, Int.le_trans hw hwall⟩

/-- A close takes everything out. -/
theorem Recalls.drained (h : Recalls cfg s log) (hstats : s'.stats = s.stats.drainCloseEmitSeries.2)
    (hsince : sinceClose log' = [])
    (hcalled : Draining s'.gated.pc → s'.wallClock ≤ wallAt cfg s' s'.gated.clock)
    (honTime : OnTime s'.gated) : Recalls cfg s' log' := by
  rw [ScenarioStats.drainCloseEmitSeries] at hstats
  refine ⟨by rw [hstats]; exact h.tracks, ?_, ?_, ?_, ?_, ?_, ?_, honTime⟩ <;> simp [hsince, hstats]
  exact hcalled

/-- A tick is recorded, and its call is over. -/
theorem Recalls.recorded (h : Recalls cfg s log) (he : e.timestamp = s.wallClock)
    (hcall : Draining s.gated.pc) (hstats : s'.stats = s.stats.pushMetric e)
    (hsince : sinceClose log' = sinceClose log ++ [e])
    (hlater : ∀ t ≤ wallAt cfg s s.gated.clock, t ≤ wallAt cfg s' s'.gated.clock)
    (hover : ¬ Draining s'.gated.pc) (honTime : OnTime s'.gated) : Recalls cfg s' log' := by
  obtain ⟨hbefore, hnow⟩ := h.called hcall
  rw [ScenarioStats.pushMetric, if_pos h.tracks] at hstats
  refine ⟨by rw [hstats]; exact h.tracks, by rw [hstats]; exact h.nodup.insert, fun key => ?_, ?_, ?_,
    fun x hx => ?_, fun hd => absurd hd hover, honTime⟩
  · rw [hstats, hsince, mem_insert_iff, h.mem]
    constructor
    · rintro (rfl | ⟨x, hx, rfl⟩)
      · exact ⟨_, mem_append_right _ (mem_singleton_self _), rfl⟩
      · exact ⟨x, mem_append_left _ hx, rfl⟩
    · rintro ⟨x, hx, rfl⟩
      rcases mem_append.mp hx with hx | hx
      · exact .inr ⟨x, hx, rfl⟩
      · exact .inl (by rw [mem_singleton.mp hx])
  · rw [hstats, hsince, getLast?_append]
    rfl
  · rw [hsince, pairwise_append]
    refine ⟨h.sorted, pairwise_singleton _ _, fun a ha b hb => ?_⟩
    rw [mem_singleton.mp hb, he]
    exact hbefore a ha
  · rw [hsince] at hx
    rcases mem_append.mp hx with hx | hx
    · exact hlater _ (h.past x hx)
    · rw [mem_singleton.mp hx, he]
      exact hlater _ hnow

theorem recalls_step (h : Recalls cfg s log) (hs : (metricsLoop cfg).step s inp = some (s', es)) :
    Recalls cfg s' (log ++ es) := by
  obtain ⟨r, hr⟩ := stepOf_of_step hs
  obtain ⟨hlater, honTime, hdrain⟩ := h.times hr
  have hstats := hr.stats
  have hes := hr.events
  unfold account at hstats hes
  split at hstats
  · rename_i hclosed
    rw [if_pos hclosed] at hes
    refine h.drained ?_ (by rw [hes, sinceClose_step]; rfl) (fun hd => (hdrain hd).2.2) honTime
    rw [hstats]
    unfold closing invokeCloseEmit
    dsimp only
    split <;> rfl
  · rename_i hopen
    rw [if_neg hopen] at hes
    split at hstats
    · rename_i hrec
      rw [if_pos hrec] at hes
      rw [Bool.and_eq_true] at hrec
      have hcall := (draining_of_settles hrec.1).1
      refine h.recorded rfl hcall hstats (by rw [hes, sinceClose_step]; rfl) hlater (fun hd => ?_) honTime
      -- the call is settled, so that none waits
      obtain ⟨ginp, hstep, -⟩ := hr.step
      rcases (hdrain hd).1 with ⟨a, ha⟩ | hno
      · exact not_draining_of_tick hstep ha hcall
      · rw [hno] at hrec
        cases hrec.1
    · -- nothing changes
      rename_i hrec
      rw [if_neg hrec] at hes
      have hsince : sinceClose (log ++ es) = sinceClose log := by
        rw [hes, sinceClose_step]
        rfl
      refine ⟨by rw [hstats]; exact h.tracks, by rw [hstats]; exact h.nodup, ?_, ?_, ?_, ?_, ?_,
        honTime⟩
      · rw [hstats, hsince]; exact h.mem
      · rw [hstats, hsince]; exact h.last
      · rw [hsince]; exact h.sorted
      · rw [hsince]; exact fun e he => hlater _ (h.past e he)
      · rw [hsince]; exact fun hd => (hdrain hd).2

/-! ## The closes of a run -/

/-- A close hands over what it owes for the events since the last one: a
marker for each series, once, later than all of them, and none if there are
no events. -/
def HandsOver (c : Closing) : Prop :=
  (∀ e ∈ since, (c.handed.map (·.key)).count e.key = 1) ∧
    (∀ m ∈ c.handed, ∀ e ∈ since, e.timestamp < m.timestamp) ∧ (since = [] → c.handed = [])

/-- Of the writes of the close only the last can fail, the encoder takes the
marker of every series, and the last event is a millisecond before the end of
time. -/
structure NothingLost (cfg : MetricsConfig) (since : List MetricEvent) (inp : CloseInput) : Prop where
  written : ∀ i, i + 1 < (since.map (·.key)).dedup.length → Answers.at inp.answers i = .ok ()
  encoded : ∀ e ∈ since,
    Accepts cfg.emitter (closeTs (since.getLast?.map (·.timestamp)) inp.systemNow) e.key
  room : ∀ e, since.getLast? = some e → e.timestamp + oneMillisecond ≤ lastSystemTime

theorem invokeCloseEmit_input (em : CloseEmitter) (policy : OnSinkError) (st : ScenarioStats)
    (inp : CloseInput) : (invokeCloseEmit em policy st inp).2.1.input = inp := by
  unfold invokeCloseEmit
  dsimp only
  split <;> rfl

theorem closeTs_room {now : SystemTime} :
    e.timestamp < closeTs (some e.timestamp) now ↔ e.timestamp + oneMillisecond ≤ lastSystemTime := by
  have hpos : (0 : Int) < (oneMillisecond : Nat) := by decide
  show e.timestamp < (checkedAdd e.timestamp oneMillisecond).getD e.timestamp ↔ _
  unfold checkedAdd
  split
  · rename_i h
    exact ⟨fun _ => h, fun _ => Int.lt_add_of_pos_right _ hpos⟩
  · rename_i h
    exact ⟨fun hlt => absurd hlt (Int.lt_irrefl _), fun hle => absurd hle h⟩

theorem Recalls.perm (h : Recalls cfg s log) :
    s.stats.closeEmitSeries.Perm ((sinceClose log).map (·.key)).dedup := by
  refine (perm_ext_iff_of_nodup h.nodup (nodup_dedup _)).mpr fun key => ?_
  rw [h.mem, mem_dedup, mem_map]

/-- The last of the events is the latest. -/
theorem Recalls.le_last (h : Recalls cfg s log) {x : MetricEvent}
    (hlast : (sinceClose log).getLast? = some x) (he : e ∈ sinceClose log) :
    e.timestamp ≤ x.timestamp := by
  obtain ⟨front, hfront⟩ := getLast?_eq_some_iff.mp hlast
  rw [hfront] at he
  have hsorted := h.sorted
  rw [hfront, pairwise_append] at hsorted
  rcases mem_append.mp he with he | he
  · exact hsorted.2.2 e he x (mem_singleton_self x)
  · obtain rfl := mem_singleton.mp he
    exact Int.le_refl _

theorem handsOver_iff (h : Recalls cfg s log) (inp : MetricsInput) :
    HandsOver (sinceClose log) (closing cfg s inp).2.1 ↔
      NothingLost cfg (sinceClose log) inp.close := by
  have hiff := handed_iff cfg.emitter cfg.schedule.onSinkError s.stats inp.close h.nodup
  have hts {m : MetricEvent} (hm : m ∈ (closing cfg s inp).2.1.handed) :=
    mem_handed cfg.emitter cfg.schedule.onSinkError s.stats inp.close hm
  constructor
  · rintro ⟨honce, hlater, -⟩
    obtain ⟨hacc, hans⟩ := hiff.mp fun key hkey => by
      obtain ⟨e, he, rfl⟩ := (h.mem key).mp hkey
      exact honce e he
    rw [h.perm.length_eq] at hans
    rw [h.last] at hacc
    refine ⟨hans, fun e he => hacc e.key ((h.mem _).mpr ⟨e, he, rfl⟩), fun e he => ?_⟩
    have hmem : e ∈ sinceClose log := mem_of_getLast? he
    obtain ⟨m, hm, -⟩ : ∃ m ∈ (closing cfg s inp).2.1.handed, m.key = e.key := by
      have hpos : 0 < ((closing cfg s inp).2.1.handed.map (·.key)).count e.key := by
        rw [honce e hmem]
        exact Nat.one_pos
      exact mem_map.mp (count_pos_iff.mp hpos)
    have hlt := hlater m hm e hmem
    rw [(hts hm).2, h.last, he] at hlt
    exact closeTs_room.mp hlt
  · rintro ⟨hans, hacc, hroom⟩
    refine ⟨fun e he => ?_, fun m hm e he => ?_, fun hnil => ?_⟩
    · refine hiff.mpr ⟨fun key hkey => ?_, ?_⟩ e.key ((h.mem _).mpr ⟨e, he, rfl⟩)
      · obtain ⟨x, hx, rfl⟩ := (h.mem key).mp hkey
        rw [h.last]
        exact hacc x hx
      · rwa [h.perm.length_eq]
    · obtain ⟨x, hx⟩ : ∃ x, (sinceClose log).getLast? = some x :=
        ⟨_, getLast?_eq_some_getLast (ne_nil_of_mem he)⟩
      rw [(hts hm).2, h.last, hx]
      exact Int.lt_of_le_of_lt (h.le_last hx he) (closeTs_room.mpr (hroom x hx))
    · rw [eq_nil_iff_forall_not_mem]
      intro m hm
      obtain ⟨e, he, -⟩ := (h.mem _).mp (hts hm).1
      rw [hnil] at he
      cases he

/-- Where a close stands in the events of its step. -/
theorem closed_of_step {mid after : List MetricsEvent} {c : Closing}
    (hs : (metricsLoop cfg).step s inp = some (s', es)) (hes : es = mid ++ .closed c :: after) :
    c = (closing cfg s inp).2.1 ∧ sinceClose (log ++ mid) = sinceClose log := by
  obtain ⟨r, hr⟩ := stepOf_of_step hs
  have hgated {front back : List MetricsEvent} :
      r.2.map MetricsEvent.gated ≠ front ++ .closed c :: back := by
    intro h
    have hm : .closed c ∈ r.2.map MetricsEvent.gated := by
      rw [h]
      exact mem_append_right _ mem_cons_self
    obtain ⟨e, -, he⟩ := mem_map.mp hm
    cases he
  have hcut := hr.events.symm.trans hes
  unfold account at hcut
  rcases append_eq_cut hcut with ⟨back, hback, -⟩ | ⟨front, hmid, htail⟩
  · exact absurd hback hgated
  · split at htail
    · obtain ⟨rfl, hc⟩ : front = [] ∧ (closing cfg s inp).2.1 = c := by
        cases front with
        | nil => exact ⟨rfl, by injection htail with hc; injection hc⟩
        | cons x front => simp at htail
      rw [hmid, append_nil, sinceClose_append, foldl_gated]
      exact ⟨hc.symm, rfl⟩
    · split at htail
      · cases front with
        | nil => cases htail
        | cons x front => simp at htail
      · simp at htail

theorem recalls_start (now : Nat) : Recalls cfg (.enter cfg now) [] where
  tracks := rfl
  nodup := nodup_nil
  mem key := by simp [MetricsState.enter, ScenarioStats.enableCloseSeriesTracking, sinceClose]
  last := rfl
  sorted := List.Pairwise.nil
  past e he := by cases he
  called := by
    rintro ⟨seg, i, hpc, -⟩
    cases hpc
  onTime seg hpc := by cases hpc

/-- In every run and at every close of it: the close hands each series
recorded since the last close to the sink once, later than every event since
then, exactly if no write but its last fails and the encoder takes the
markers. -/
theorem close_markers_iff {now : Nat}
    (h : (metricsLoop cfg).Run (fun _ _ => True) (.enter cfg now) s log) :
    ∀ before c after, log = before ++ .closed c :: after →
      (HandsOver (sinceClose before) c ↔ NothingLost cfg (sinceClose before) c.input) := by
  refine (h.invariant (I := fun s log => Recalls cfg s log ∧
    ∀ before c after, log = before ++ .closed c :: after →
      (HandsOver (sinceClose before) c ↔ NothingLost cfg (sinceClose before) c.input))
    ⟨recalls_start now, fun before c after hlog => ?_⟩ ?_).2
  · simp at hlog
  · rintro s log inp s' es ⟨hi, hold⟩ - hs
    refine ⟨recalls_step hi hs, fun before c after hlog => ?_⟩
    rcases append_eq_cut hlog with ⟨mid, hcut, -⟩ | ⟨mid, rfl, hes⟩
    · exact hold before c mid hcut
    · obtain ⟨rfl, hsince⟩ := @closed_of_step s' es inp cfg s log mid after c hs hes
      rw [hsince, handsOver_iff hi inp]
      unfold closing
      rw [invokeCloseEmit_input]

/-- One event a second behind a gate that starts open, with a stale marker for
each series at a close. The encoder takes everything. -/
def staleMarkers : MetricsConfig where
  schedule := {}
  rate := 1
  ctx := { initial := { whileGateOpen := some true }, hasWhile := true }
  name := "up"
  emitter := { encode := fun _ => .ok [], signal := .staleMarker, wantsEvents := false }
  wallBase := 0

/-- Two ticks, of the series `a` and `b`, and the close of the gate, with what
the sink answers to the markers. -/
def closesAfterTwo (answers : Answers) : List MetricsInput :=
  [{}, {}, {}, { labels := [("host", "a")] }, {},
    { toGatedInput := { edge := some .whileClose } }, { labels := [("host", "b")] }, {},
    { close := { answers } }]

/-- The first close of a run, with what was before and after it. -/
def firstClose : List MetricsEvent → Option (List MetricsEvent × Closing × List MetricsEvent)
  | [] => none
  | .closed c :: log => some ([], c, log)
  | e :: log => (firstClose log).map fun p => (e :: p.1, p.2)

theorem firstClose_cut : ∀ {log : List MetricsEvent} {p : List MetricsEvent × Closing × List MetricsEvent},
    firstClose log = some p → log = p.1 ++ .closed p.2.1 :: p.2.2
  | .closed c :: log, p, h => by
    cases h
    rfl
  | .gated e :: log, p, h | .recorded e :: log, p, h => by
    obtain ⟨q, hq, rfl⟩ := Option.map_eq_some_iff.mp h
    exact congrArg (cons _) (firstClose_cut hq)

/-- The first marker is written, and the write of the last fails. -/
theorem close_markers_iff_lastFails : ∃ s log,
    (metricsLoop staleMarkers).Run (fun _ _ => True) (.enter staleMarkers 0) s log ∧
      ∃ before c after, log = before ++ .closed c :: after ∧ c.handed.length = 2 ∧
        c.input.answers = [.ok (), .error (.sink "reset")] ∧ HandsOver (sinceClose before) c := by
  obtain ⟨s, log, hrun, hp⟩ := Machine.run_reaches (metricsLoop staleMarkers) (fun _ _ => True)
    (.enter staleMarkers 0) (closesAfterTwo [.ok (), .error (.sink "reset")])
    (fun _ log => (firstClose log).any (fun p => decide (
      ((sinceClose p.1).map (·.key)).dedup.length = 2 ∧ p.2.1.handed.length = 2 ∧
      p.2.1.input.answers = [.ok (), .error (.sink "reset")] ∧
      (sinceClose p.1).getLast?.all (fun e => decide (e.timestamp + oneMillisecond ≤ lastSystemTime)) =
        true)) = true) (by decide +kernel)
  obtain ⟨⟨before, c, after⟩, hc, hp⟩ := (Option.any_eq_true _ _).mp hp
  obtain ⟨hlen, hhanded, hans, hroom⟩ := of_decide_eq_true hp
  refine ⟨s, log, hrun, before, c, after, firstClose_cut hc, hhanded, hans, ?_⟩
  refine (close_markers_iff hrun before c after (firstClose_cut hc)).mpr ⟨fun i hi => ?_, ?_, ?_⟩
  · rw [hlen] at hi
    obtain rfl : i = 0 := by omega
    rw [show c.input.answers = _ from hans]
    rfl
  · exact fun _ _ => rfl
  · intro e he
    rw [he] at hroom
    exact of_decide_eq_true hroom

/-- The write of the first marker fails, and the second series gets none. -/
theorem marker_lost : staleMarkers.schedule.onSinkError = .warn ∧ ∃ s log,
    (metricsLoop staleMarkers).Run (fun _ _ => True) (.enter staleMarkers 0) s log ∧
      ∃ before c after, log = before ++ .closed c :: after ∧ ¬ HandsOver (sinceClose before) c := by
  refine ⟨rfl, ?_⟩
  obtain ⟨s, log, hrun, hp⟩ := Machine.run_reaches (metricsLoop staleMarkers) (fun _ _ => True)
    (.enter staleMarkers 0) (closesAfterTwo [.error (.sink "reset")])
    (fun _ log => (firstClose log).any (fun p => (sinceClose p.1).any fun e =>
      decide ((p.2.1.handed.map (·.key)).count e.key = 0)) = true) (by decide +kernel)
  obtain ⟨⟨before, c, after⟩, hc, hp⟩ := (Option.any_eq_true _ _).mp hp
  obtain ⟨e, he, hzero⟩ := any_eq_true.mp hp
  refine ⟨s, log, hrun, before, c, after, firstClose_cut hc, fun hall => ?_⟩
  have hone := hall.1 e he
  rw [of_decide_eq_true hzero] at hone
  cases hone

end Sonda.Proof.Schedule
