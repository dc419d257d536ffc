import Sonda.Proof.Server.Scenarios

/-!
# One launch for a name

`admit_compiled` looks for rows that hold on to the name of the file and
inserts its own rows much later. Where no two POSTs of one name are between
these two points (`KeepsNames`), the rows of a name that are not finished are
all of one launch (`one_launch_per_name`). The registration of buses does not
guard the rest: `logs_posted_twice` is two POSTs of a file without a bus that
are both admitted.
-/

namespace Sonda.Proof.Server

open Sonda.Server Sonda.Schedule Framework Sonda.Proof.Schedule List

variable {α τ : Type} {P : Pipeline α τ} {sv sv' : ServerState} {a : ServerAct α}
  {es log : List RegistryEvent}
variable {rest : List Op} {name : String} {inp : OpInput} {i : Nat} {r : HandleRef} {t : Thread}
  {s s' : AppState} {rows : List HandleRef} {xs : List Op} {j : Nat} {op : Op}
  {handle : ScenarioHandle} {u t' : Thread}

/-! ## The program of a POST -/

def isInsert : Op → Bool
  | .insertRows _ => true
  | _ => false

/-- The thread has rows to insert. -/
def inserts (todo : List Op) : Bool := todo.any isInsert

def isLaunch : Op → Bool
  | .launch (.launch ..) => true
  | _ => false

/-- Rows are inserted last, and after every launch. -/
def Chained : List Op → Prop
  | [] => True
  | op :: rest => (isLaunch op = true → inserts rest = true) ∧ (isInsert op = true → rest = []) ∧
    Chained rest

theorem chained_append (hx : inserts xs = false) {ys : List Op} (hy : inserts ys = true)
    (h : Chained ys) : Chained (xs ++ ys) := by
  induction xs with
  | nil => exact h
  | cons op xs ih =>
    simp only [inserts, any_cons, Bool.or_eq_false_iff] at hx
    refine ⟨fun _ => ?_, fun hi => ?_, ih hx.2⟩
    · change (xs ++ ys).any isInsert = true
      rw [any_append, show ys.any isInsert = true from hy, Bool.or_true]
    · rw [hx.1] at hi; cases hi

theorem chained_of_none (hx : inserts xs = false) (hl : xs.any isLaunch = false) : Chained xs := by
  induction xs with
  | nil => trivial
  | cons op xs ih =>
    simp only [inserts, any_cons, Bool.or_eq_false_iff] at hx hl
    refine ⟨fun h => ?_, fun h => ?_, ih hx.2 hl.2⟩
    · rw [hl.1] at h; cases h
    · rw [hx.1] at h; cases h

/-- What the thread at `i` has still to do as a POST. -/
structure Posted (i : Nat) (t : Thread) : Prop where
  conflicts : ∀ name, .conflicts name ∈ t.todo → t.scenarioName = some name
  inserts : ∀ hs, .insertRows hs ∈ t.todo → ∀ h ∈ hs, h.launch = i
  launches : ∀ index handle, .launch (.launch index handle) ∈ t.todo →
    handle.scenarioName = t.scenarioName
  chained : Chained t.todo

theorem Posted.exec {t : Thread} (h : Posted i t) (htodo : t.todo = op :: rest)
    (hex : op.exec inp s { t with todo := rest } = (s', t', es)) : Posted i t' := by
  obtain ⟨-, hname, hr | hr⟩ := exec_thread hex
  · have hsub : ∀ op' ∈ t'.todo, op' ∈ t.todo := by
      rw [htodo, hr]
      exact fun op' => mem_cons_of_mem op
    refine ⟨fun name hm => hname.trans (h.conflicts name (hsub _ hm)),
      fun hs hm => h.inserts hs (hsub _ hm),
      fun index handle hm => (h.launches index handle (hsub _ hm)).trans hname.symm, ?_⟩
    rw [hr]
    exact (htodo ▸ h.chained : Chained (op :: rest)).2.2
  · constructor <;> rw [hr]
    · simp
    · simp
    · simp
    · trivial

theorem posted_of_end {x : HandleRef}
    (ht : t = dropStateGuard x handle ∨ t = deleteScenario x handle) : Posted i t := by
  rcases ht with rfl | rfl <;>
    simp only [dropStateGuard, deleteScenario, unregisterOps] <;>
    cases handle.scenarioName <;>
    exact ⟨by simp, by simp, by simp, by simp [Chained, isLaunch, isInsert]⟩

/-- The entries launched carry the name of the file. -/
theorem scenarioName_of_launchOps {resolver : Bool} {file : CompiledFile α} {order : List String}
    {index : Nat} (h : .launch index handle ∈ launchOps P resolver file order) :
    handle.scenarioName = file.scenarioName := by
  rcases launchOps_cases P resolver file order with ⟨e, heq, -⟩ | ⟨prepared, -, heq⟩ <;> rw [heq] at h
  · cases mem_singleton.mp h
  · simp only [tailOps, mem_append, mem_flatMap] at h
    rcases h with h | (⟨p, -, h⟩ | ⟨p, -, h⟩) | h
    · obtain ⟨_, _, h⟩ := mem_registerOps h
      cases h
    · rcases mem_wireOps h with ⟨_, h⟩ | h | ⟨_, h⟩ <;> cases h
    · rcases mem_spawnOps h with ⟨_, h, hname⟩ | h <;> cases h
      exact hname
    · split at h <;> simp at h

theorem inserts_front (file : CompiledFile α) (order : List String) :
    inserts (front P file order) = false := by
  refine any_eq_false.mpr fun op h => ?_
  rcases mem_front h with (⟨_, _, rfl⟩ | ⟨_, rfl⟩) | rfl | ⟨_, _, rfl⟩ <;> simp [isInsert]

variable (n : Nat) (file : CompiledFile α) (order : List String)

theorem chained_admitCompiled : Chained (admitCompiled P n file order).todo := by
  change Chained (front P file order ++ adoptOps (launched n (launchOps P true file order)))
  have hfront := inserts_front (P := P) file order
  cases he : launched n (launchOps P true file order) with
  | nil =>
    refine chained_of_none ?_ (any_eq_false.mpr fun op h => ?_)
    · simp [inserts, adoptOps, isInsert, show (front P file order).any isInsert = false from hfront]
    · rcases mem_append.mp h with h | h
      · rcases mem_front h with (⟨_, _, rfl⟩ | ⟨_, rfl⟩) | rfl | ⟨lop, hl, rfl⟩ <;>
          simp only [isLaunch] <;> try simp
        have := filterMap_eq_nil_iff.mp he lop hl
        cases lop <;> simp_all
      · rw [mem_singleton.mp h]; simp [isLaunch]
  | cons h hs =>
    have hren :
        inserts ((h :: hs).flatMap fun h => [.renamePending h, .renameSubscribers h]) = false := by
      refine any_eq_false.mpr fun op hop => ?_
      obtain ⟨x, -, hop⟩ := mem_flatMap.mp hop
      simp only [mem_cons, not_mem_nil, or_false] at hop
      rcases hop with rfl | rfl <;> simp [isInsert]
    rw [adoptOps, if_neg (by simp), ← append_assoc]
    refine chained_append ?_ rfl ⟨by simp [isLaunch], fun _ => rfl, trivial⟩
    rw [inserts, any_append]
    exact Bool.or_eq_false_iff.mpr ⟨hfront, hren⟩

theorem posted_admitCompiled : Posted n (admitCompiled P n file order) := by
  refine ⟨fun name h => ?_, fun hs h x hx => ?_, fun index handle h => ?_,
    chained_admitCompiled n file order⟩
  · rcases mem_admitCompiled h with h | h
    · rcases mem_front h with (⟨m, hm, h⟩ | ⟨_, h⟩) | h | ⟨_, _, h⟩ <;> cases h
      exact hm
    · rcases mem_adoptOps h with h | ⟨_, h | h⟩ | h <;> cases h
  · rcases mem_admitCompiled h with h | h
    · rcases mem_front h with (⟨_, _, h⟩ | ⟨_, h⟩) | h | ⟨_, _, h⟩ <;> cases h
    · rcases mem_adoptOps h with h | ⟨_, h | h⟩ | h <;> cases h
      obtain ⟨lop, -, hl⟩ := mem_filterMap.mp hx
      cases lop <;> cases hl
      rfl
  · rcases mem_admitCompiled h with h | h
    · rcases mem_front h with (⟨_, _, h⟩ | ⟨_, h⟩) | h | ⟨lop, hl, h⟩ <;> cases h
      exact scenarioName_of_launchOps hl
    · rcases mem_adoptOps h with h | ⟨_, h | h⟩ | h <;> cases h

/-! ## Rows of a name -/

/-- The handle holds on to the name. -/
def Holding (sv : ServerState) (name : String) (r : HandleRef) : Prop :=
  ∃ handle, sv.handles.lookup r = some handle ∧ handle.scenarioName = some name ∧
    handle.state ≠ .finished

/-- The POST has passed its check for the name and has not inserted its rows. -/
def InFlight (name : String) (t : Thread) : Prop :=
  t.scenarioName = some name ∧ .conflicts name ∉ t.todo ∧ inserts t.todo = true

/-- A POST checks a name when no POST of the name is between its check and its
rows. -/
def OpKeepsNames (sv : ServerState) : Op → Prop
  | .conflicts name => ∀ u ∈ sv.threads, ¬ InFlight name u
  | _ => True

/-- The condition on a run. -/
def KeepsNames (sv : ServerState) : ServerAct α → Prop
  | .step i _ => ∀ t ∈ sv.threads[i]?, ∀ op ∈ t.todo.head?, OpKeepsNames sv op
  | _ => True

structure Named (sv : ServerState) : Prop where
  fresh : Fresh sv
  posted : ∀ (i : Nat) t, sv.threads[i]? = some t → Posted i t
  handles : ∀ (i : Nat) t x handle, sv.threads[i]? = some t → sv.handles.lookup x = some handle →
    x.launch = i → handle.scenarioName = t.scenarioName
  bound : ∀ r ∈ sv.scenarios, r.launch < sv.threads.length
  notYet : ∀ (i : Nat) t, sv.threads[i]? = some t → inserts t.todo = true →
    ∀ r ∈ sv.scenarios, r.launch ≠ i
  alone : ∀ (i j : Nat) t u name, sv.threads[i]? = some t → sv.threads[j]? = some u →
    InFlight name t → InFlight name u → i = j
  clear : ∀ (i : Nat) t name, sv.threads[i]? = some t → InFlight name t →
    ∀ r ∈ sv.scenarios, ¬ Holding sv name r
  rows : ∀ r ∈ sv.scenarios, ∀ r' ∈ sv.scenarios, ∀ name, Holding sv name r → Holding sv name r' →
    r.launch = r'.launch

theorem blocks_iff (state : ScenarioState) : blocks state = true ↔ state ≠ .finished := by
  cases state <;> simp [blocks]

/-- A check that passes finds no row that holds on to the name. -/
theorem not_holding_of_isEmpty (h : (sv.collectActiveConflicts name).isEmpty = true) :
    ∀ r ∈ sv.scenarios, ¬ Holding sv name r := by
  rintro r hr ⟨handle, hh, hn, hs⟩
  have := filter_eq_nil_iff.mp (isEmpty_iff.mp h) r hr
  simp [hh, hn, (blocks_iff _).mpr hs] at this

theorem inserts_of_exec {t : Thread} (htodo : t.todo = op :: rest)
    (hex : op.exec inp s { t with todo := rest } = (s', t', es)) (h : inserts t'.todo = true) :
    t'.todo = rest ∧ inserts t.todo = true := by
  obtain ⟨-, -, hr | hr⟩ := exec_thread hex
  · rw [hr] at h
    refine ⟨hr, ?_⟩
    rw [htodo, inserts, any_cons, show rest.any isInsert = true from h, Bool.or_true]
  · rw [hr] at h; cases h

/-- A POST is in flight where it was before, or has just passed its check. -/
theorem inFlight_of_step (hs : Steps P sv a sv' es) (hu : sv'.threads[j]? = some u)
    (h : InFlight name u) :
    (∃ t, sv.threads[j]? = some t ∧ InFlight name t) ∨
      ∃ inp t rest, a = .step j inp ∧ sv.threads[j]? = some t ∧ t.todo = .conflicts name :: rest ∧
        (sv.collectActiveConflicts name).isEmpty = true := by
  obtain ⟨hname, hno, hins⟩ := h
  cases threadAfter_of_step hs hu with
  | same ht => exact .inl ⟨u, ht, hname, hno, hins⟩
  | @posted file order hj hu =>
    subst hu
    refine absurd ?_ hno
    simp only [admitCompiled, mem_append]
    simp [checkOps, show file.scenarioName = some name from hname]
  | ending hj hu =>
    rcases hu with rfl | rfl <;> cases hname
  | @stepped t op rest inp es ha ht htodo hex =>
    obtain ⟨-, hn, -⟩ := exec_thread hex
    obtain ⟨hr, hins'⟩ := inserts_of_exec htodo hex hins
    rw [hr] at hno
    by_cases hop : op = .conflicts name
    · subst hop
      refine .inr ⟨inp, t, rest, ha, ht, htodo, ?_⟩
      by_contra hne
      simp only [Op.exec, if_neg hne] at hex
      have hstop : Thread.stop { t with todo := rest } = u := congrArg (fun p => p.2.1) hex
      rw [← hstop] at hins
      cases hins
    · refine .inl ⟨t, ht, hn.symm.trans hname, ?_, hins'⟩
      rw [htodo]
      exact fun hm => (mem_cons.mp hm).elim (fun h => hop h.symm) hno

theorem Holding.of_kept (hk : Kept sv.toShared sv'.toShared) (h : Holding sv' name r) :
    Holding sv name r := by
  obtain ⟨handle', hl', hn, hstate⟩ := h
  obtain ⟨handle, hl, hlater⟩ := hk.lookup hl'
  exact ⟨handle, hl, hlater.scenarioName ▸ hn, fun hf => hstate (hlater.finished hf)⟩

/-- A handle in a row that holds on to a name did so before. -/
theorem Named.holding_of_step (h : Named sv) (hs : Steps P sv a sv' es) (hr : r ∈ sv.scenarios)
    (hh : Holding sv' name r) : Holding sv name r := by
  rcases handles_of_step hs with hk | ⟨i, inp, t, index, new, rest, -, ht, htodo, he⟩
  · exact hh.of_kept hk
  · obtain ⟨handle', hl', hn, hstate⟩ := hh
    -- the thread that launches has rows to insert, and so none yet
    have hlaunch : HandleRef.launch ⟨t.launch, index⟩ = i :=
      (h.fresh.thread ht).launch _ (by simp [toLaunch, htodo, launches])
    have hins : inserts rest = true := (htodo ▸ (h.posted i t ht).chained :
      Chained (.launch (.launch index new) :: rest)).1 rfl
    have hne : r ≠ ⟨t.launch, index⟩ := by
      rintro rfl
      refine h.notYet i t ht ?_ _ hr hlaunch
      rw [htodo, inserts, any_cons, show rest.any isInsert = true from hins, Bool.or_true]
    rw [he, AList.lookup_insert_ne hne] at hl'
    exact ⟨handle', hl', hn, hstate⟩

theorem scenarioName_of_step (hs : Steps P sv a sv' es) (hu : sv'.threads[j]? = some u)
    (hj : j < sv.threads.length) :
    ∃ t, sv.threads[j]? = some t ∧ u.scenarioName = t.scenarioName := by
  cases threadAfter_of_step hs hu with
  | same hu => exact ⟨u, hu, rfl⟩
  | posted hj' | ending hj' => omega
  | stepped ha ht htodo hex => exact ⟨_, ht, (exec_thread hex).2.1⟩

theorem handles_names_step (h : Named sv) (hs : Steps P sv a sv' es) :
    ∀ (i : Nat) t x handle, sv'.threads[i]? = some t → sv'.handles.lookup x = some handle →
      x.launch = i → handle.scenarioName = t.scenarioName := by
  intro j u x handle hu hl hx
  -- a handle that was there before has the name of its thread
  have hold {handle₀ : ScenarioHandle} (hl₀ : sv.handles.lookup x = some handle₀) :
      handle₀.scenarioName = u.scenarioName := by
    have hlt := h.fresh.bound x (mem_of_lookup hl₀)
    obtain ⟨t, ht, hn⟩ := scenarioName_of_step hs hu (hx ▸ hlt)
    rw [hn]
    exact h.handles j t x handle₀ ht hl₀ hx
  rcases handles_of_step hs with hk | ⟨i, inp, t, index, new, rest, ha, ht, htodo, he⟩
  · obtain ⟨handle₀, hl₀, hlater⟩ := hk.lookup hl
    exact hlater.scenarioName.trans (hold hl₀)
  · rw [he] at hl
    by_cases hxe : x = ⟨t.launch, index⟩
    · have hlaunch : x.launch = i :=
        (h.fresh.thread ht).launch x (by simp [hxe, toLaunch, htodo, launches])
      obtain rfl : i = j := hlaunch.symm.trans hx
      obtain ⟨t₀, ht₀, hn⟩ := scenarioName_of_step hs hu (List.getElem?_eq_some_iff.mp ht).1
      obtain rfl : t = t₀ := Option.some.inj (ht.symm.trans ht₀)
      rw [hxe, AList.lookup_insert] at hl
      rw [hn, ← Option.some.inj hl]
      exact (h.posted i t ht).launches index new (htodo ▸ mem_cons_self)
    · rw [AList.lookup_insert_ne hxe] at hl
      exact hold hl

theorem posted_step (h : ∀ (i : Nat) t, sv.threads[i]? = some t → Posted i t)
    (hs : Steps P sv a sv' es) : ∀ (i : Nat) t, sv'.threads[i]? = some t → Posted i t := by
  intro j u hu
  cases threadAfter_of_step hs hu with
  | same hu => exact h j u hu
  | posted hj hu => exact hu ▸ posted_admitCompiled j _ _
  | ending hj hu => exact posted_of_end hu
  | stepped ha ht htodo hex => exact (h j _ ht).exec htodo hex

/-- The thread that inserts rows is in flight for their name, and is over
afterwards. -/
theorem Named.inserting (h : Named sv) {hs : List HandleRef} (ht : sv.threads[i]? = some t)
    (htodo : t.todo = .insertRows hs :: rest) :
    rest = [] ∧ (∀ r ∈ hs, r.launch = i) ∧
      ∀ r ∈ hs, ∀ name, Holding sv name r → InFlight name t := by
  have hp := h.posted i t ht
  obtain rfl : rest = [] := (htodo ▸ hp.chained : Chained (.insertRows hs :: rest)).2.1 rfl
  have hlaunch := hp.inserts hs (htodo ▸ mem_cons_self)
  refine ⟨rfl, hlaunch, ?_⟩
  rintro r hr name ⟨handle, hl, hn, -⟩
  refine ⟨(h.handles i t r handle ht hl (hlaunch r hr)).symm.trans hn, ?_, ?_⟩ <;> rw [htodo]
  · simp
  · rfl

theorem length_le_of_step (hs : Steps P sv a sv' es) : sv.threads.length ≤ sv'.threads.length := by
  cases hs <;> simp [ServerState.spawn]

/-- The thread that has inserted its rows has none left to insert. -/
theorem Named.inserted (h : Named sv) (hs : Steps P sv a sv' es) {t : Thread} (ha : a = .step i inp)
    (ht : sv.threads[i]? = some t) (htodo : t.todo = .insertRows rows :: rest)
    (hu : sv'.threads[i]? = some u) : inserts u.todo = false := by
  obtain ⟨rfl, -⟩ := h.inserting ht htodo
  have hlt := (List.getElem?_eq_some_iff.mp ht).1
  cases threadAfter_of_step hs hu with
  | same _ hne => exact absurd ha (hne inp)
  | posted hj | ending hj => omega
  | stepped _ ht' htodo' hex =>
    rw [ht] at ht'
    cases ht'
    rw [htodo] at htodo'
    cases htodo'
    obtain ⟨-, -, hr | hr⟩ := exec_thread hex <;> rw [hr] <;> rfl

theorem notYet_step (h : Named sv) (hs : Steps P sv a sv' es) :
    ∀ (i : Nat) t, sv'.threads[i]? = some t → inserts t.todo = true →
      ∀ r ∈ sv'.scenarios, r.launch ≠ i := by
  intro j u hu hins
  have hold : ∀ r ∈ sv.scenarios, r.launch ≠ j := by
    cases threadAfter_of_step hs hu with
    | same hu => exact h.notYet j u hu hins
    | posted hj | ending hj => exact fun r hr => by have := h.bound r hr; omega
    | stepped ha ht htodo hex => exact h.notYet j _ ht (inserts_of_exec htodo hex hins).2
  intro r hr
  rcases row_of_step hs hr with hr | ⟨i, inp, t, rows, rest, ha, ht, htodo, hr⟩
  · exact hold r hr
  · rw [(h.inserting ht htodo).2.1 r hr]
    rintro rfl
    rw [h.inserted hs ha ht htodo hu] at hins
    cases hins

theorem alone_step (h : Named sv) (hc : KeepsNames sv a) (hs : Steps P sv a sv' es) :
    ∀ (i j : Nat) t u name, sv'.threads[i]? = some t → sv'.threads[j]? = some u →
      InFlight name t → InFlight name u → i = j := by
  -- a POST that passes its check finds no other in flight
  have hno {i : Nat} {inp : OpInput} {t u : Thread} {rest : List Op} {name : String}
      (ha : a = .step i inp) (ht : sv.threads[i]? = some t) (htodo : t.todo = .conflicts name :: rest)
      (hu : u ∈ sv.threads) : ¬ InFlight name u := by
    subst ha
    exact hc t ht (.conflicts name) (by rw [htodo]; rfl) u hu
  intro i j t u name ht hu hft hfu
  rcases inFlight_of_step hs ht hft with ⟨t₀, ht₀, hf₀⟩ | ⟨inp, t₀, rest, ha, ht₀, htodo, -⟩ <;>
    rcases inFlight_of_step hs hu hfu with ⟨u₀, hu₀, hg₀⟩ | ⟨inp', u₀, rest', ha', hu₀, htodo', -⟩
  · exact h.alone i j t₀ u₀ name ht₀ hu₀ hf₀ hg₀
  · exact absurd hf₀ (hno ha' hu₀ htodo' (mem_of_getElem? ht₀))
  · exact absurd hg₀ (hno ha ht₀ htodo (mem_of_getElem? hu₀))
  · rw [ha] at ha'
    cases ha'
    rfl

/-- A step is one operation of one thread. -/
theorem op_unique {i : Nat} {inp inp' : OpInput} {t : Thread} {op' : Op} {rest rest' : List Op}
    (ha : a = .step i inp) (ht : sv.threads[i]? = some t) (htodo : t.todo = op :: rest)
    (hb : a = .step j inp') (hu : sv.threads[j]? = some u) (hudo : u.todo = op' :: rest') :
    op = op' := by
  rw [ha] at hb
  cases hb
  obtain rfl := Option.some.inj (ht.symm.trans hu)
  exact (cons.inj (htodo.symm.trans hudo)).1

/-- A POST is in flight for the names of the rows it inserts. -/
theorem Named.inFlight_of_new (h : Named sv) (hs : Steps P sv a sv' es) (ha : a = .step i inp)
    (ht : sv.threads[i]? = some t) (htodo : t.todo = .insertRows rows :: rest) (hr : r ∈ rows)
    (hh : Holding sv' name r) : InFlight name t := by
  refine (h.inserting ht htodo).2.2 r hr name ?_
  rcases handles_of_step hs with hk | ⟨i', inp', t', index, new, rest', ha', ht', htodo', -⟩
  · exact hh.of_kept hk
  · cases op_unique ha ht htodo ha' ht' htodo'

theorem clear_step (h : Named sv) (hs : Steps P sv a sv' es) :
    ∀ (i : Nat) t name, sv'.threads[i]? = some t → InFlight name t →
      ∀ r ∈ sv'.scenarios, ¬ Holding sv' name r := by
  intro j u name hu hfu r hr hh
  have hold (hr : r ∈ sv.scenarios) : False := by
    have hh := h.holding_of_step hs hr hh
    rcases inFlight_of_step hs hu hfu with ⟨u₀, hu₀, hg₀⟩ | ⟨_, _, _, _, _, _, hempty⟩
    · exact h.clear j u₀ name hu₀ hg₀ r hr hh
    · exact not_holding_of_isEmpty hempty r hr hh
  rcases row_of_step hs hr with hr | ⟨i, inp, t, rows, rest, ha, ht, htodo, hr⟩
  · exact hold hr
  -- a new row: its thread was in flight for the name, and no other is
  have hft := h.inFlight_of_new hs ha ht htodo hr hh
  rcases inFlight_of_step hs hu hfu with ⟨u₀, hu₀, hg₀⟩ | ⟨inp', t', rest', ha', ht', htodo', -⟩
  · obtain rfl := h.alone i j t u₀ name ht hu₀ hft hg₀
    have := h.inserted hs ha ht htodo hu
    rw [hfu.2.2] at this
    cases this
  · cases op_unique ha ht htodo ha' ht' htodo'

theorem rows_step (h : Named sv) (hs : Steps P sv a sv' es) :
    ∀ r ∈ sv'.scenarios, ∀ r' ∈ sv'.scenarios, ∀ name, Holding sv' name r → Holding sv' name r' →
      r.launch = r'.launch := by
  intro r hr r' hr' name hh hh'
  rcases row_of_step hs hr with hr | ⟨i, _, t, _, _, ha, ht, htodo, hr⟩ <;>
    rcases row_of_step hs hr' with hr' | ⟨j, _, u, _, _, hb, hu, hudo, hr'⟩
  · exact h.rows r hr r' hr' name (h.holding_of_step hs hr hh) (h.holding_of_step hs hr' hh')
  · exact absurd (h.holding_of_step hs hr hh)
      (h.clear j u name hu (h.inFlight_of_new hs hb hu hudo hr' hh') r hr)
  · exact absurd (h.holding_of_step hs hr' hh')
      (h.clear i t name ht (h.inFlight_of_new hs ha ht htodo hr hh) r' hr')
  · rw [(h.inserting ht htodo).2.1 r hr, (h.inserting hu hudo).2.1 r' hr']
    rw [ha] at hb
    cases hb
    rfl

theorem named_step (h : Named sv) (hc : KeepsNames sv a) (hs : Steps P sv a sv' es) : Named sv' where
  fresh := fresh_step h.fresh hs
  posted := posted_step h.posted hs
  handles := handles_names_step h hs
  bound := by
    intro r hr
    refine Nat.lt_of_lt_of_le ?_ (length_le_of_step hs)
    rcases row_of_step hs hr with hr | ⟨i, inp, t, rows, rest, ha, ht, htodo, hr⟩
    · exact h.bound r hr
    · rw [(h.inserting ht htodo).2.1 r hr]
      exact (List.getElem?_eq_some_iff.mp ht).1
  notYet := notYet_step h hs
  alone := alone_step h hc hs
  clear := clear_step h hs
  rows := rows_step h hs

theorem named_start : Named {} where
  fresh := fresh_start
  posted := nofun
  handles i t _ _ ht := by simp at ht
  bound := nofun
  notYet := nofun
  alone i _ t _ _ ht := by simp at ht
  clear := nofun
  rows := nofun

/-- In a run that keeps the names, two rows of one name that are not finished
are of one launch. -/
theorem one_launch_per_name (h : (server P).Run KeepsNames {} sv log) :
    ∀ r ∈ sv.scenarios, ∀ r' ∈ sv.scenarios, ∀ name, Holding sv name r → Holding sv name r' →
      r.launch = r'.launch := by
  have hi : Named sv := h.invariant (I := fun sv _ => Named sv) named_start
    fun hi hc hs => named_step hi hc (steps_of_step hs)
  exact hi.rows

/-! ## Two POSTs between check and rows -/

instance (name : String) (t : Thread) : Decidable (InFlight name t) :=
  inferInstanceAs (Decidable (_ ∧ _ ∧ _))

instance (op : Op) : Decidable (OpKeepsNames sv op) := by
  unfold OpKeepsNames
  split <;> infer_instance

instance : (a : ServerAct α) → Decidable (KeepsNames sv a)
  | .step i _ => inferInstanceAs (Decidable (∀ t ∈ sv.threads[i]?, ∀ op ∈ t.todo.head?, _))
  | .post .. | .transition .. | .finish _ | .delete _ | .drop _ => isTrue trivial

/-- One logs entry of the scenario `web`. -/
def webLogs : CompiledFile Unit where
  scenarioName := some "web"
  entries := [⟨none, "logs", none, none, ()⟩]

/-- `web` is posted, its task ends, and it is posted again. -/
theorem one_launch_per_name_logs : ∃ sv log,
    (server plainPipeline).Run KeepsNames {} sv log ∧ sv.scenarios = [⟨0, 0⟩, ⟨2, 0⟩] ∧
      ∀ r ∈ sv.scenarios, ∀ r' ∈ sv.scenarios, ∀ name, Holding sv name r → Holding sv name r' →
        r.launch = r'.launch :=
  Machine.run_reaches_and
    (.post webLogs [] :: steps 0 8 ++ .finish ⟨0, 0⟩ :: steps 1 4 ++ .post webLogs [] :: steps 2 8)
    (by decide) fun _ _ hrun _ => one_launch_per_name hrun

/-- Two POSTs of `web` both pass their check before either has a row: both are
admitted, and run under one name. -/
theorem logs_posted_twice : ∃ sv log,
    (server plainPipeline).Run (fun _ _ => True) {} sv log ∧
      ¬ ∀ r ∈ sv.scenarios, ∀ r' ∈ sv.scenarios, ∀ name, Holding sv name r → Holding sv name r' →
        r.launch = r'.launch := by
  obtain ⟨sv, log, hrun, hrows, hfirst, hsecond⟩ := Machine.run_reaches (server plainPipeline)
    (fun _ _ => True) {}
    (.post webLogs [] :: .post webLogs [] :: steps 0 1 ++ steps 1 1 ++ steps 0 7 ++ steps 1 7)
    (fun sv _ => sv.scenarios = [⟨0, 0⟩, ⟨1, 0⟩] ∧
      sv.handles.lookup ⟨0, 0⟩ =
        some ⟨.fresh ⟨0, 0⟩, some "web", "multi-0", none, .pending, false, false⟩ ∧
      sv.handles.lookup ⟨1, 0⟩ =
        some ⟨.fresh ⟨1, 0⟩, some "web", "multi-0", none, .pending, false, false⟩) (by decide)
  refine ⟨sv, log, hrun, fun hall => ?_⟩
  have := hall ⟨0, 0⟩ (by simp [hrows]) ⟨1, 0⟩ (by simp [hrows]) "web" ⟨_, hfirst, rfl, nofun⟩
    ⟨_, hsecond, rfl, nofun⟩
  cases this

end Sonda.Proof.Server
