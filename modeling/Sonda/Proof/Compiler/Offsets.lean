import Mathlib.Data.List.GetD
import Sonda.Impl.Compiler.CompileAfter
import Sonda.Proof.Compiler.Sorting
import Sonda.Proof.Config.Durations

/-!
# Total offsets

An entry starts after at most one other, so its `after:` ancestors form a chain
(`AfterChain`). The loop over the sorted entries gives each of them the sum over its chain
(`sumOffsets_chain`). Whether the pass gets that far depends on the entries and not on
their order (`computes_iff`), and neither do the chains (`totalOffsets_chain`).
-/

namespace Sonda.Compiler

open Framework List
open Config (Text StdParse decimalParse)

section

variable (std : StdParse) (file : ExpandedFile)
variable {e : ExpandedEntry} {base total : List ℚ} {chain : List ExpandedEntry}
  {clause : AfterClause} {t a b : ExpandedEntry} {file' : ExpandedFile} {sorted : List Nat}
  {idx i dep : Nat} {q : ℚ}

/-! ## Chains -/

/-- One entry starts after the other. -/
def AfterLink (a b : ExpandedEntry) : Prop :=
  b ∈ file.entries ∧ ∃ clause, a.after = some clause ∧ b.id = some clause.refId

/-- An entry and its ancestors, each before the one it starts after. -/
structure AfterChain (e : ExpandedEntry) (chain : List ExpandedEntry) : Prop where
  head : chain.head? = some e
  linked : chain.IsChain (AfterLink file)
  last : ∀ a ∈ chain.getLast?, a.after = none

/-- The seconds that a computation gives. -/
def secsOf (x : Except CompileAfterError ℚ) : ℚ := x.toOption.getD 0

/-- The crossing time and the delay of a link. -/
def linkSecs (a b : ExpandedEntry) : ℚ :=
  match a.after with
  | some clause => secsOf (linkCrossing std a clause b) + secsOf (linkDelay std a clause)
  | none => 0

/-- The own offsets of a chain's entries, and its links. -/
def chainSecs (chain : List ExpandedEntry) : ℚ :=
  (chain.map fun e => secsOf (baseOffset std e)).sum +
    ((chain.zip chain.tail).map fun (a, b) => linkSecs std a b).sum

variable {std file}

theorem chainSecs_cons (a b : ExpandedEntry) (chain : List ExpandedEntry) :
    chainSecs std (a :: b :: chain) =
      secsOf (baseOffset std a) + chainSecs std (b :: chain) + linkSecs std a b := by
  simp only [chainSecs, map_cons, sum_cons, tail_cons, zip_cons_cons]
  ring

theorem AfterChain.of_root (h : e.after = none) : AfterChain file e [e] := by
  refine ⟨rfl, .singleton e, fun a ha => ?_⟩
  obtain rfl : e = a := by simpa using ha
  exact h

theorem AfterChain.cons {e : ExpandedEntry} (hlink : AfterLink file e t)
    (h : AfterChain file t chain) : AfterChain file e (e :: chain) := by
  obtain ⟨hhead, hlinked, hlast⟩ := h
  cases chain with
  | nil => cases hhead
  | cons b chain =>
    cases hhead
    exact ⟨rfl, isChain_cons_cons.2 ⟨hlink, hlinked⟩, hlast⟩

theorem eq_of_id {id : Text} (ha : a ∈ file.entries) (hb : b ∈ file.entries) (hida : a.id = some id)
    (hidb : b.id = some id) : a = b := by
  obtain ⟨i, hi⟩ := mem_iff_getElem?.1 ha
  obtain ⟨j, hj⟩ := mem_iff_getElem?.1 hb
  have h₁ := (get_buildIdIndex file.ids_nodup id i).2 ⟨a, hi, hida⟩
  have h₂ := (get_buildIdIndex file.ids_nodup id j).2 ⟨b, hj, hidb⟩
  cases h₁.symm.trans h₂
  exact Option.some.inj (hi.symm.trans hj)

theorem AfterLink.unique {c : ExpandedEntry} (hb : AfterLink file a b) (hc : AfterLink file a c) :
    b = c := by
  obtain ⟨hbmem, clause, hclause, hid⟩ := hb
  obtain ⟨hcmem, clause', hclause', hid'⟩ := hc
  cases hclause.symm.trans hclause'
  exact eq_of_id hbmem hcmem hid hid'

/-- An entry has one chain. -/
theorem AfterChain.unique {chain chain' : List ExpandedEntry} (h : AfterChain file e chain)
    (h' : AfterChain file e chain') : chain = chain' := by
  induction chain generalizing e chain' with
  | nil => cases h.head
  | cons a chain ih =>
    obtain ⟨hhead, hlinked, hlast⟩ := h
    obtain ⟨hhead', hlinked', hlast'⟩ := h'
    cases hhead
    cases chain' with
    | nil => cases hhead'
    | cons b chain' =>
      cases hhead'
      cases chain with
      | nil =>
        cases chain' with
        | nil => rfl
        | cons c chain' =>
          obtain ⟨-, clause, hclause, -⟩ := (isChain_cons_cons.1 hlinked').1
          rw [hlast a rfl] at hclause
          cases hclause
      | cons c chain =>
        obtain ⟨hac, hrest⟩ := isChain_cons_cons.1 hlinked
        cases chain' with
        | nil =>
          obtain ⟨-, clause, hclause, -⟩ := hac
          rw [hlast' a rfl] at hclause
          cases hclause
        | cons d chain' =>
          obtain ⟨had, hrest'⟩ := isChain_cons_cons.1 hlinked'
          cases hac.unique had
          rw [ih ⟨rfl, hrest, hlast⟩ ⟨rfl, hrest', hlast'⟩]

/-- The chain of an entry is made of its ancestors. -/
theorem AfterChain.mem_iff (h : AfterChain file e chain) (b : ExpandedEntry) :
    b ∈ chain ↔ Relation.ReflTransGen (AfterLink file) e b := by
  induction chain generalizing e with
  | nil => cases h.head
  | cons a chain ih =>
    obtain ⟨hhead, hlinked, hlast⟩ := h
    cases hhead
    rw [mem_cons]
    cases chain with
    | nil =>
      constructor
      · rintro (rfl | hb)
        · exact .refl
        · cases hb
      · intro hb
        rcases hb.cases_head with rfl | ⟨c, ⟨-, clause, hclause, -⟩, -⟩
        · exact .inl rfl
        · rw [hlast a rfl] at hclause
          cases hclause
    | cons c chain =>
      obtain ⟨hac, hrest⟩ := isChain_cons_cons.1 hlinked
      rw [ih ⟨rfl, hrest, hlast⟩]
      constructor
      · rintro (rfl | hb)
        · exact .refl
        · exact hb.head hac
      · intro hb
        rcases hb.cases_head with rfl | ⟨d, had, hdb⟩
        · exact .inl rfl
        · exact .inr (hac.unique had ▸ hdb)

/-! ## One entry -/

theorem entryOffset_root (he : file.entries[idx]? = some e) (ha : e.after = none) :
    entryOffset std file (buildIdIndex file.entries) base total idx = .ok (base.getD idx 0) := by
  simp only [entryOffset, he, ha]

theorem entryOffset_link {e : ExpandedEntry} (he : file.entries[idx]? = some e)
    (ha : e.after = some clause) (ht : file.entries[dep]? = some t) (hid : t.id = some clause.refId) :
    entryOffset std file (buildIdIndex file.entries) base total idx =
      ((linkCrossing std e clause t) >>= fun crossing => (linkDelay std e clause) >>= fun delay =>
        .ok (base.getD idx 0 + total.getD dep 0 + crossing + delay)) := by
  have hget := (get_buildIdIndex file.ids_nodup clause.refId dep).2 ⟨t, ht, hid⟩
  simp only [entryOffset, he, ha, hget, ht]

theorem leads_of_after {e : ExpandedEntry} (he : file.entries[idx]? = some e)
    (ha : e.after = some clause) (ht : file.entries[dep]? = some t) (hid : t.id = some clause.refId) :
    Leads file.edges idx dep := by
  refine ⟨.after, mem_edges_iff.2 ⟨e, t, clause.refId, he, ht, hid, ?_⟩⟩
  simp [outgoingEdges, ha]

theorem exists_target (hres : Resolvable file) (he : e ∈ file.entries) (ha : e.after = some clause) :
    ∃ (dep : Nat) (t : ExpandedEntry), file.entries[dep]? = some t ∧ t.id = some clause.refId := by
  obtain ⟨t, ht, hid⟩ := hres e he (clause.refId, .after) (by simp [outgoingEdges, ha])
  obtain ⟨dep, hdep⟩ := mem_iff_getElem?.1 ht
  exact ⟨dep, t, hdep, hid⟩

/-! ## The loop -/

theorem getD_set {l : List ℚ} {j : Nat} (h : i < l.length) :
    (l.set i q).getD j 0 = if i = j then q else l.getD j 0 := by
  by_cases hij : i = j
  · subst hij
    simp [h]
  · simp [hij]

/-- The offsets of the places that the loop is done with are the sums over their chains. -/
structure Summed (std : StdParse) (file : ExpandedFile) (done : List Nat) (total : List ℚ) : Prop where
  length : total.length = file.entries.length
  chains : ∀ i ∈ done, ∀ e, file.entries[i]? = some e →
    ∃ chain, AfterChain file e chain ∧ total.getD i 0 = chainSecs std chain

theorem summed_step {done : List Nat} (hres : Resolvable file)
    (hbase : ∀ (i : Nat) (e : ExpandedEntry), file.entries[i]? = some e → base.getD i 0 = secsOf (baseOffset std e))
    (hbefore : ∀ j, Leads file.edges idx j → j ∈ done) (h : Summed std file done total)
    (hlt : idx < file.entries.length)
    (hq : entryOffset std file (buildIdIndex file.entries) base total idx = .ok q) :
    Summed std file (done ++ [idx]) (total.set idx q) := by
  obtain ⟨hlen, hchains⟩ := h
  refine ⟨by rw [length_set, hlen], fun i hi e he => ?_⟩
  rw [getD_set (by omega)]
  split
  · rename_i hidx
    subst hidx
    cases ha : e.after with
    | none =>
      rw [entryOffset_root he ha] at hq
      cases hq
      refine ⟨[e], .of_root ha, ?_⟩
      rw [hbase idx e he]
      simp [chainSecs]
    | some clause =>
      obtain ⟨dep, t, ht, hid⟩ := exists_target hres (mem_of_getElem? he) ha
      obtain ⟨chain, hchain, hsum⟩ := hchains dep (hbefore dep (leads_of_after he ha ht hid)) t ht
      rw [entryOffset_link he ha ht hid] at hq
      obtain ⟨crossing, hcrossing, hq⟩ := bind_ok hq
      obtain ⟨delay, hdelay, hq⟩ := bind_ok hq
      cases hq
      refine ⟨e :: chain, hchain.cons ⟨mem_of_getElem? ht, clause, ha, hid⟩, ?_⟩
      have hlink : linkSecs std e t = crossing + delay := by
        simp [linkSecs, ha, hcrossing, hdelay, secsOf, Except.toOption]
      cases chain with
      | nil => cases hchain.head
      | cons b chain =>
        obtain rfl : b = t := by simpa using hchain.head
        rw [chainSecs_cons, hbase idx e he, hsum, hlink]
        ring
  · rename_i hidx
    refine hchains i ?_ e he
    rcases mem_append.1 hi with hi | hi
    · exact hi
    · exact absurd (mem_singleton.1 hi).symm hidx

theorem sumOffsets_chain (hres : Resolvable file)
    (hbase : file.entries.mapM (baseOffset std) = .ok base)
    (h : sumOffsets std file (buildIdIndex file.entries) base file.sorted = .ok total) :
    Summed std file file.sorted total := by
  obtain ⟨htop, -, hbound, -⟩ := topologicalSort_spec file
  refine foldlM_ok ⟨length_replicate, by simp⟩ ?_ h
  intro done idx rest total total' heq hdone hstep
  obtain ⟨q, hq, hset⟩ := bind_ok hstep
  cases hset
  refine summed_step hres (fun i e he => ?_) (htop done idx rest heq) hdone
    (hbound idx (by rw [heq]; simp)) hq
  obtain ⟨b, hb, hok⟩ := mapM_ok_getElem? hbase he
  rw [getD_eq_getElem?_getD, hb, hok]
  rfl

/-! ## When there are offsets -/

/-- The entry that a `while:` clause of the file names has a generator that can be a gate. -/
def WhileSupported (file : ExpandedFile) (e : ExpandedEntry) : Prop :=
  ∀ clause, e.whileClause = some clause → isDeferredWhile clause file.scenarioName = false →
    ∀ t ∈ file.entries, t.id = some clause.refId →
      ∃ generator, metricsGenerator e clause.refId .while_ t = .ok generator ∧
        isSupportedWhileUpstream generator = true

/-- What the pass asks of a file to compute its offsets. It names entries and no place. -/
structure Computes (std : StdParse) (file : ExpandedFile) : Prop where
  resolvable : Resolvable file
  distinct : ¬ SelfReferent file
  acyclic : ¬ Cyclic fun a b => ∃ kind, Refers file a kind b
  whiles : ∀ e ∈ file.entries, WhileSupported file e
  bases : ∀ e ∈ file.entries, ∃ q, baseOffset std e = .ok q
  links : ∀ e ∈ file.entries, ∀ clause, e.after = some clause → ∀ t ∈ file.entries,
    t.id = some clause.refId →
      (∃ q, linkCrossing std e clause t = .ok q) ∧ ∃ q, linkDelay std e clause = .ok q

theorem resolutionOrder_ok_iff : resolutionOrder file = .ok sorted ↔
    (Resolvable file ∧ ¬ SelfReferent file) ∧
      (¬ Cyclic fun a b => ∃ kind, Refers file a kind b) ∧ sorted = file.sorted := by
  constructor
  · intro h
    have hcheck : Resolvable file ∧ ¬ SelfReferent file := by
      obtain ⟨_, hok, -⟩ := bind_ok h
      exact (checkReferences_ok_iff file).1 hok
    rw [resolutionOrder_eq file hcheck] at h
    obtain ⟨hlt, h⟩ := check_ok h
    cases h
    exact ⟨hcheck, mt (misses_iff_cyclic file hcheck.1).2 hlt, rfl⟩
  · rintro ⟨hcheck, hacyclic, rfl⟩
    rw [resolutionOrder_eq file hcheck, if_neg (mt (misses_iff_cyclic file hcheck.1).1 hacyclic)]

theorem checkWhile_ok_iff (hres : Resolvable file) (he : e ∈ file.entries) :
    checkWhile file (buildIdIndex file.entries) e = .ok () ↔ WhileSupported file e := by
  unfold checkWhile WhileSupported
  cases hw : e.whileClause with
  | none => simp
  | some clause =>
    by_cases hd : isDeferredWhile clause file.scenarioName = true
    · simp [hd]
    · have hedge : (clause.refId, ClauseKind.while_) ∈ outgoingEdges e file.scenarioName := by
        simp [outgoingEdges, hw, hd]
      obtain ⟨t, ht, hid⟩ := hres e he _ hedge
      obtain ⟨dep, hdep⟩ := mem_iff_getElem?.1 ht
      have hget := (get_buildIdIndex file.ids_nodup clause.refId dep).2 ⟨t, hdep, hid⟩
      simp only [hd, Bool.false_eq_true, if_false, hget, Option.bind_some, hdep]
      constructor
      · intro h c hc _ t' ht' hid'
        cases hc
        cases eq_of_id ht ht' hid hid'
        obtain ⟨generator, hgen, h⟩ := bind_ok h
        split at h
        · exact ⟨generator, hgen, by assumption⟩
        · cases h
      · intro h
        obtain ⟨generator, hgen, hsup⟩ := h clause rfl (by simpa using hd) t ht hid
        rw [hgen]
        show (if isSupportedWhileUpstream generator then _ else _) = _
        rw [if_pos hsup]

theorem mem_sorted (hres : Resolvable file)
    (hacyclic : ¬ Cyclic fun a b => ∃ kind, Refers file a kind b) (hi : i < file.entries.length) :
    i ∈ file.sorted := by
  obtain ⟨-, hnodup, hbound, -⟩ := topologicalSort_spec file
  have hle := Nat.not_lt.1 (mt (misses_iff_cyclic file hres).1 hacyclic)
  exact (length_le_of_bound hnodup hbound).2 hle i hi

/-- Each place that the loop went over had its offset computed. -/
theorem sumOffsets_each
    (h : sumOffsets std file (buildIdIndex file.entries) base sorted = .ok total) :
    ∀ i ∈ sorted, ∃ total q, entryOffset std file (buildIdIndex file.entries) base total i = .ok q := by
  revert h
  refine foldlM_ok (p := fun done _ => ∀ i ∈ done, ∃ total q,
    entryOffset std file (buildIdIndex file.entries) base total i = .ok q) (by simp) ?_
  intro done idx rest total total' _ hdone hstep i hi
  rcases mem_append.1 hi with hi | hi
  · exact hdone i hi
  · obtain ⟨q, hq, -⟩ := bind_ok hstep
    rw [mem_singleton.1 hi]
    exact ⟨total, q, hq⟩

/-- Offsets are computed exactly for the files that meet what is asked of them. -/
theorem computes_iff : (∃ total, totalOffsets std file = .ok total) ↔ Computes std file := by
  constructor
  · rintro ⟨total, h⟩
    obtain ⟨sorted, hsorted, h⟩ := bind_ok h
    obtain ⟨⟨hres, hself⟩, hacyclic, rfl⟩ := resolutionOrder_ok_iff.1 hsorted
    obtain ⟨_, hwhile, h⟩ := bind_ok h
    obtain ⟨base, hbase, h⟩ := bind_ok h
    refine ⟨hres, hself, hacyclic, fun e he => ?_, fun e he => ?_, fun e he clause ha t ht hid => ?_⟩
    · exact (checkWhile_ok_iff hres he).1 (forM_ok hwhile e he)
    · obtain ⟨i, hi⟩ := mem_iff_getElem?.1 he
      obtain ⟨b, -, hb⟩ := mapM_ok_getElem? hbase hi
      exact ⟨b, hb⟩
    · obtain ⟨idx, hidx⟩ := mem_iff_getElem?.1 he
      obtain ⟨dep, hdep⟩ := mem_iff_getElem?.1 ht
      have hmem := mem_sorted hres hacyclic (List.getElem?_eq_some_iff.1 hidx).1
      obtain ⟨total', q, hq⟩ := sumOffsets_each h idx hmem
      rw [entryOffset_link hidx ha hdep hid] at hq
      obtain ⟨crossing, hcrossing, hq⟩ := bind_ok hq
      obtain ⟨delay, hdelay, -⟩ := bind_ok hq
      exact ⟨⟨crossing, hcrossing⟩, delay, hdelay⟩
  · intro ⟨hres, hself, hacyclic, hwhiles, hbases, hlinks⟩
    have hwhile : file.entries.forM (checkWhile file (buildIdIndex file.entries)) = .ok () :=
      forM_ok_iff.2 fun e he => (checkWhile_ok_iff hres he).2 (hwhiles e he)
    obtain ⟨base, hbase⟩ := mapM_isOk hbases
    have hstep : ∀ total, ∀ idx ∈ file.sorted, ∃ total', (do
        let offset ← entryOffset std file (buildIdIndex file.entries) base total idx
        .ok (total.set idx offset)) = .ok total' := by
      intro total idx hidx
      have hlt := (topologicalSort_spec file).2.2.1 idx hidx
      have he := getElem?_eq_getElem hlt
      cases ha : (file.entries[idx]).after with
      | none =>
        rw [entryOffset_root he ha]
        exact ⟨_, rfl⟩
      | some clause =>
        obtain ⟨dep, t, ht, hid⟩ := exists_target hres (getElem_mem hlt) ha
        obtain ⟨⟨x, hx⟩, d, hd⟩ := hlinks _ (getElem_mem hlt) clause ha t (mem_of_getElem? ht) hid
        rw [entryOffset_link he ha ht hid, hx, hd]
        exact ⟨_, rfl⟩
    obtain ⟨total, htotal⟩ := foldlM_isOk hstep (replicate file.entries.length 0)
    refine ⟨total, ?_⟩
    rw [totalOffsets, resolutionOrder_ok_iff.2 ⟨⟨hres, hself⟩, hacyclic, rfl⟩]
    rw [hwhile]
    rw [hbase]
    exact htotal

/-! ## The order of the entries -/

/-- The offset of every entry is the sum over its chain of ancestors. -/
theorem totalOffsets_chain {total : List ℚ} (h : totalOffsets std file = .ok total)
    (he : file.entries[i]? = some e) :
    ∃ chain, AfterChain file e chain ∧ total[i]? = some (chainSecs std chain) := by
  obtain ⟨sorted, hsorted, h⟩ := bind_ok h
  obtain ⟨⟨hres, -⟩, hacyclic, rfl⟩ := resolutionOrder_ok_iff.1 hsorted
  obtain ⟨_, -, h⟩ := bind_ok h
  obtain ⟨base, hbase, h⟩ := bind_ok h
  obtain ⟨hlen, hchains⟩ := sumOffsets_chain hres hbase h
  have hi := (List.getElem?_eq_some_iff.1 he).1
  obtain ⟨chain, hchain, hsum⟩ := hchains i (mem_sorted hres hacyclic hi) e he
  refine ⟨chain, hchain, ?_⟩
  rw [← hsum, List.getElem?_eq_getElem (by omega), List.getD_eq_getElem _ _ (by omega)]

theorem Computes.reorder (hname : file'.scenarioName = file.scenarioName)
    (hperm : file'.entries.Perm file.entries) (h : Computes std file) : Computes std file' := by
  have hmem : ∀ e, e ∈ file'.entries ↔ e ∈ file.entries := fun e => hperm.mem_iff
  obtain ⟨hres, hself, hacyclic, hwhiles, hbases, hlinks⟩ := h
  refine ⟨?_, ?_, ?_, ?_, ?_, ?_⟩
  · simpa only [Resolvable, hmem, hname] using hres
  · simpa only [SelfReferent, hmem, hname] using hself
  · simpa only [Refers, hmem, hname] using hacyclic
  · simpa only [WhileSupported, hmem, hname] using hwhiles
  · simpa only [hmem] using hbases
  · simpa only [hmem] using hlinks

theorem AfterChain.reorder (hperm : file'.entries.Perm file.entries) (h : AfterChain file e chain) :
    AfterChain file' e chain := by
  refine ⟨h.head, h.linked.imp fun a b hab => ?_, h.last⟩
  exact ⟨hperm.mem_iff.2 hab.1, hab.2⟩

/-- Every entry of a file starts at the sum of the own offsets of itself and all its
ancestors, and of the crossing times and delays of the links between them; in whatever
order the entries are written, the offsets are computed and are these. -/
theorem totalOffsets_eq {total : List ℚ} (h : totalOffsets std file = .ok total) :
    (∀ (i : Nat) (e : ExpandedEntry), file.entries[i]? = some e → ∃ chain, AfterChain file e chain ∧
      (∀ b, b ∈ chain ↔ Relation.ReflTransGen (AfterLink file) e b) ∧
      total[i]? = some (chainSecs std chain)) ∧
    ∀ file' : ExpandedFile, file'.scenarioName = file.scenarioName → file'.entries.Perm file.entries →
      ∃ total', totalOffsets std file' = .ok total' ∧ ∀ (i j : Nat) (e : ExpandedEntry),
        file.entries[i]? = some e → file'.entries[j]? = some e → total'[j]? = total[i]? := by
  constructor
  · intro i e he
    obtain ⟨chain, hchain, hsum⟩ := totalOffsets_chain h he
    exact ⟨chain, hchain, hchain.mem_iff, hsum⟩
  · intro file' hname hperm
    obtain ⟨total', h'⟩ := computes_iff.2 ((computes_iff.1 ⟨total, h⟩).reorder hname hperm)
    refine ⟨total', h', fun i j e hi hj => ?_⟩
    obtain ⟨chain, hchain, hsum⟩ := totalOffsets_chain h hi
    obtain ⟨chain', hchain', hsum'⟩ := totalOffsets_chain h' hj
    rw [hsum, hsum', (hchain.reorder hperm).unique hchain']

end

/-- A ramp to 100 in ten seconds, with an own offset and a clause. -/
def ramp (id : Text) (phaseOffset : Option Text) (after : Option AfterClause) : ExpandedEntry where
  id := some id
  signalType := .metrics
  name := id
  rate := 1
  generator := some (.sawtooth 0 100 10)
  phaseOffset := phaseOffset
  clockGroup := none
  after := after
  whileClause := none
  metrics_generator _ := rfl

/-- `c` after `b` is above 25, and `b` 3 s after `a` is above 50. -/
def rampC : ExpandedEntry := ramp [0x63] none (some ⟨[0x62], .greaterThan, 25, none⟩)
def rampB : ExpandedEntry :=
  ramp [0x62] (some [0x31, 0x73]) (some ⟨[0x61], .greaterThan, 50, some [0x33, 0x73]⟩)
def rampA : ExpandedEntry := ramp [0x61] (some [0x32, 0x73]) none

def rampFile : ExpandedFile := ⟨none, [rampC, rampB, rampA], by decide⟩

theorem totalOffsets_ramps :
    totalOffsets decimalParse rampFile = .ok [27 / 2, 11, 2] ∧
    ((∀ (i : Nat) (e : ExpandedEntry), rampFile.entries[i]? = some e → ∃ chain,
        AfterChain rampFile e chain ∧
        (∀ b, b ∈ chain ↔ Relation.ReflTransGen (AfterLink rampFile) e b) ∧
        [27 / 2, 11, 2][i]? = some (chainSecs decimalParse chain)) ∧
      ∀ file' : ExpandedFile, file'.scenarioName = none → file'.entries.Perm rampFile.entries →
        ∃ total', totalOffsets decimalParse file' = .ok total' ∧ ∀ (i j : Nat) (e : ExpandedEntry),
          rampFile.entries[i]? = some e → file'.entries[j]? = some e →
            total'[j]? = [27 / 2, 11, 2][i]?) := by
  have h : totalOffsets decimalParse rampFile = .ok [27 / 2, 11, 2] :=
    ok_of_toOption (by decide +kernel)
  exact ⟨h, totalOffsets_eq h⟩

end Sonda.Compiler
