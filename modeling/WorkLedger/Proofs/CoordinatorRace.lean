import WorkLedger.Proofs.SearchRace

/-!
# A coordinator and its searches under every interleaving

A coordinator halts its current search before it starts the next one, and a halt returns
only once the search's worker has exited. So, whatever the workers of its searches do in
between, at most one of its searches is still going at any time: every search that is still
going is the current one or the one being halted (`CoordinatorRace.Inv`), and the coordinator
has no current search while it halts one. Each search inside a coordinator is raced by its
worker and by the coordinator's halt, so it keeps the invariant of a search race and sends at
most one block.

* `searches_stop_safely`: for a search raced by any callers, and for a coordinator's searches,
  what every interleaving keeps.
-/

namespace WorkLedger.Mining

/-! ## Searches in a list -/

theorem getElem?_modify_eq_some {α : Type} {l : List α} {i j : Nat} {f : α → α} {y : α}
    (h : (l.modify i f)[j]? = some y) : ∃ x, l[j]? = some x ∧ y = if i = j then f x else x := by
  rw [List.getElem?_modify] at h
  cases hx : l[j]? with
  | none => rw [hx] at h; cases h
  | some x =>
    rw [hx] at h
    exact ⟨x, rfl, (Option.some.inj h).symm⟩

theorem getElem?_modify_self {α : Type} {l : List α} {i : Nat} {f : α → α} {x : α}
    (h : l[i]? = some x) : (l.modify i f)[i]? = some (f x) := by
  rw [List.getElem?_modify, h]
  simp

theorem getElem?_modify_of_some {α : Type} {l : List α} {i : Nat} {x : α} (h : l[i]? = some x)
    (j : Nat) (f : α → α) : (l.modify j f)[i]? = some (if j = i then f x else x) := by
  rw [List.getElem?_modify, h]
  rfl

/-- The caller of a halt that has not returned. -/
def Caller.Halting : Caller → Prop
  | .first .halt | .second .halt | .joining _ => True
  | _ => False

namespace SearchRace

variable {r : SearchRace}

/-- A search that has ended stays ended, whoever steps. -/
theorem live_of_step_live {a : SearchActor} (h : (r.step a).search.state.live = true) :
    r.search.state.live = true := by
  cases hl : r.search.state.live
  · rw [(step_follows r a).eq_of_ended hl, hl] at h
    exact h
  · rfl

/-- A halt that has not returned either returns or stays a halt that has not returned. -/
theorem callerStep_halting {k : Nat} {c : Caller} (hk : r.callers[k]? = some c) (hc : c.Halting) :
    ∃ c', (r.callerStep k).callers[k]? = some c' ∧ (c'.Halting ∨ ∃ w s, c' = .joined w s) := by
  have hlt : k < r.callers.length := (List.getElem?_eq_some_iff.1 hk).1
  match c, hc with
  | .first .halt, _ =>
    rw [callerStep_first hk]
    split
    · exact ⟨_, List.getElem?_set_self hlt, .inl trivial⟩
    · exact ⟨_, List.getElem?_set_self hlt, .inl trivial⟩
  | .second .halt, _ =>
    rw [callerStep_second hk]
    split
    · exact ⟨_, List.getElem?_set_self hlt, .inl trivial⟩
    · exact ⟨_, List.getElem?_set_self hlt, .inl trivial⟩
  | .joining w, _ =>
    rcases callerStep_joining hk with ⟨-, heq⟩ | heq
    · rw [heq]
      exact ⟨_, List.getElem?_set_self hlt, .inr ⟨w, _, rfl⟩⟩
    · rw [heq]
      exact ⟨_, hk, .inl trivial⟩

end SearchRace

/-! ## The invariant of a coordinator -/

/-- What every run of a coordinator keeps. -/
structure CoordinatorRace.Inv (m : CoordinatorRace) : Prop where
  /-- Each search keeps the invariant of a search race. -/
  searches : ∀ (i : Nat) (r : SearchRace), m.searches[i]? = some r → r.Inv
  /-- A search still going is the current one or the one being halted. -/
  live : ∀ (i : Nat) (r : SearchRace), m.searches[i]? = some r → r.search.state.live = true →
    m.current = some i ∨ ∃ k next, m.owner = .halting i k next
  /-- While a search is current, the coordinator is between calls. -/
  current : ∀ i : Nat, m.current = some i → m.owner = .idle ∧ i < m.searches.length
  /-- While it halts a search, it has no current one, and its caller there has not returned. -/
  halting : ∀ (i k : Nat) (next : Option StartCall), m.owner = .halting i k next → m.current = none ∧
    ∃ r, m.searches[i]? = some r ∧ ∃ c, r.callers[k]? = some c ∧ c.Halting
  /-- While it starts a search, it has no current one. -/
  starting : ∀ c, m.owner = .starting c → m.current = none

namespace CoordinatorRace

variable {m : CoordinatorRace}

theorem step_worker (m : CoordinatorRace) (j : Nat) :
    m.step (.worker j) = { m with searches := m.searches.modify j SearchRace.workerStep } := rfl

/-- A step of one search that keeps the invariant of a search race keeps it for every search. -/
theorem searches_modify {l : List SearchRace} (h : ∀ (i : Nat) (r : SearchRace), l[i]? = some r → r.Inv)
    {j : Nat} {f : SearchRace → SearchRace} (hf : ∀ r : SearchRace, r.Inv → (f r).Inv) :
    ∀ (i : Nat) (r : SearchRace), (l.modify j f)[i]? = some r → r.Inv := by
  intro i r hr
  obtain ⟨r₀, hr₀, rfl⟩ := getElem?_modify_eq_some hr
  split
  · exact hf r₀ (h i r₀ hr₀)
  · exact h i r₀ hr₀

theorem Inv.begin (c : Coordinator) (calls : List CoordinatorCall) : (begin c calls).Inv where
  searches _ _ h := by cases h
  live _ _ h := by cases h
  current _ h := by cases h
  halting _ _ _ h := by cases h
  starting _ h := by cases h

/-- With no current search and no halt going on, no search is still going. -/
theorem Inv.not_live (h : m.Inv) (hc : m.current = none)
    (ho : ∀ i k next, m.owner ≠ .halting i k next) :
    ∀ (i : Nat) (r : SearchRace), m.searches[i]? = some r → r.search.state.live = false := by
  intro i r hr
  cases hl : r.search.state.live
  · rfl
  · rcases h.live i r hr hl with hcur | ⟨k, next, hh⟩
    · rw [hc] at hcur
      cases hcur
    · exact absurd hh (ho i k next)

/-- A worker's step keeps the invariant: it touches only its own search, which it can end but
never restart, and never its callers. -/
theorem Inv.worker (h : m.Inv) (j : Nat) : (m.step (.worker j)).Inv := by
  rw [step_worker]
  refine ⟨searches_modify h.searches (fun r hr => hr.workerStep), fun i r' hr' hl => ?_,
    fun i hi => ⟨(h.current i hi).1, by simpa using (h.current i hi).2⟩, fun i k next ho => ?_,
    h.starting⟩
  · obtain ⟨r, hr, rfl⟩ := getElem?_modify_eq_some hr'
    refine h.live i r hr ?_
    split at hl
    · exact SearchRace.live_of_step_live (a := .worker) hl
    · exact hl
  · obtain ⟨hc, r, hr, c, hk, hc'⟩ := h.halting i k next ho
    refine ⟨hc, _, getElem?_modify_of_some hr j _, c, ?_, hc'⟩
    split
    · rwa [SearchRace.workerStep_callers]
    · exact hk

/-- A call begins: the current search, if any, is taken away and gets the coordinator as a new
halt caller. -/
theorem Inv.beginCall (h : m.Inv) (ho : m.owner = .idle) {call : CoordinatorCall}
    {rest : List CoordinatorCall} (hcalls : m.calls = call :: rest) : m.ownerStep.Inv := by
  cases hcur : m.current with
  | none =>
    -- nothing to halt: the call goes on at once, and no search is going
    simp only [ownerStep, ho, hcalls, hcur]
    have hnl := h.not_live hcur (fun i k next hh => by rw [ho] at hh; cases hh)
    refine ⟨h.searches, fun i r hr hl => ?_, (fun _ hi => by cases hi), fun i k next hh => ?_,
      (fun _ _ => rfl)⟩
    · rw [hnl i r hr] at hl
      cases hl
    · cases call <;> cases hh
  | some i =>
    -- the current search gets the coordinator's halt as its last caller
    simp only [ownerStep, ho, hcalls, hcur]
    obtain ⟨-, hlt⟩ := h.current i hcur
    obtain ⟨r, hr⟩ : ∃ r, m.searches[i]? = some r := ⟨_, List.getElem?_eq_getElem hlt⟩
    refine ⟨searches_modify h.searches (fun r hr => hr.step _), fun j r' hr' hl => ?_,
      (fun _ hj => by cases hj), fun i' k next hh => ?_, (fun _ hh => by cases hh)⟩
    · obtain ⟨r₀, hr₀, rfl⟩ := getElem?_modify_eq_some hr'
      by_cases hij : i = j
      · subst hij
        exact .inr ⟨_, _, rfl⟩
      · rw [if_neg hij] at hl
        rcases h.live j r₀ hr₀ hl with hcj | ⟨k, next, hh⟩
        · rw [hcur] at hcj
          exact absurd (Option.some.inj hcj) hij
        · rw [ho] at hh
          cases hh
    · simp only [Owner.halting.injEq] at hh
      obtain ⟨rfl, rfl, -⟩ := hh
      refine ⟨rfl, _, getElem?_modify_of_some hr i _, .first .halt, ?_, trivial⟩
      rw [if_pos rfl, hr]
      exact List.getElem?_concat_length

/-- While the coordinator halts one search, every other search has ended: only the current
search or the one being halted can be going. -/
theorem Inv.ended_of_halting (h : m.Inv) {i k : Nat} {next : Option StartCall}
    (ho : m.owner = .halting i k next) {j : Nat} {r : SearchRace} (hji : j ≠ i)
    (hr : m.searches[j]? = some r) : r.search.state.live = false := by
  cases hl : r.search.state.live
  · rfl
  · rcases h.live j r hr hl with hcj | ⟨k', next', hh⟩
    · rw [(h.halting i k next ho).1] at hcj
      cases hcj
    · rw [ho] at hh
      cases hh
      exact absurd rfl hji

/-- The coordinator's halt takes its next step in the search it halts. Every other search has
ended; this one ends when the halt returns, since the halt returns only once the worker has
exited. -/
theorem Inv.haltStep (h : m.Inv) {i k : Nat} {next : Option StartCall}
    (ho : m.owner = .halting i k next) : m.ownerStep.Inv := by
  obtain ⟨hcur, r, hr, c, hk, hc⟩ := h.halting i k next ho
  have hri := h.searches i r hr
  obtain ⟨c', hk', hc'⟩ := SearchRace.callerStep_halting hk hc
  have hmod : (m.searches.modify i (·.step (.caller k)))[i]? = some (r.callerStep k) :=
    getElem?_modify_self hr
  have hsearches := searches_modify (j := i) h.searches (fun r hr => hr.step (.caller k))
  -- every other search has ended
  have hothers : ∀ (j : Nat) (r' : SearchRace), j ≠ i →
      (m.searches.modify i (·.step (.caller k)))[j]? = some r' → r'.search.state.live = false := by
    intro j r' hji hr'
    obtain ⟨r₀, hr₀, rfl⟩ := getElem?_modify_eq_some hr'
    rw [if_neg (Ne.symm hji)]
    exact h.ended_of_halting ho hji hr₀
  -- while the halt has not returned, it is still going on
  have hstill : ∀ c'' : Caller, c''.Halting → (r.callerStep k).callers[k]? = some c'' →
      ({ m with searches := m.searches.modify i (·.step (.caller k)),
                owner := .halting i k next }).Inv := by
    intro c'' hc'' hk''
    refine ⟨hsearches, fun j r' hr' hl => ?_, (fun _ hj => by rw [hcur] at hj; cases hj),
      fun i' k' next' hh => ?_, (fun _ hh => by cases hh)⟩
    · by_cases hji : j = i
      · subst hji
        exact .inr ⟨k, next, rfl⟩
      · rw [hothers j r' hji hr'] at hl
        cases hl
    · simp only [Owner.halting.injEq] at hh
      obtain ⟨rfl, rfl, -⟩ := hh
      exact ⟨hcur, _, hmod, c'', hk'', hc''⟩
  simp only [ownerStep, ho, hmod, Option.bind_some, hk']
  cases c' with
  | joined w s =>
    -- the halt has returned: the worker has exited, so this search has ended too
    have hend : (r.callerStep k).search.state.live = false :=
      (hri.callerStep k).ended_of_exited
        ((hri.callerStep k).joined w s (List.mem_of_getElem? hk')).1
    refine ⟨hsearches, fun j r' hr' hl => ?_, (fun _ hj => by rw [hcur] at hj; cases hj),
      fun i' k' next' hh => ?_, (fun _ _ => hcur)⟩
    · by_cases hji : j = i
      · subst hji
        rw [hmod] at hr'
        cases hr'
        rw [hend] at hl
        cases hl
      · rw [hothers j r' hji hr'] at hl
        cases hl
    · cases next <;> cases hh
  | _ => exact hstill _ (hc'.resolve_right (by rintro ⟨_, _, he⟩; cases he)) hk'

/-- A start builds its search and spawns the worker: the new search is the only one going. -/
theorem Inv.startStep (h : m.Inv) {c : StartCall} (ho : m.owner = .starting c) : m.ownerStep.Inv := by
  have hcur := h.starting c ho
  have hnl := h.not_live hcur (fun i k next hh => by rw [ho] at hh; cases hh)
  simp only [ownerStep, ho]
  split
  · rename_i s _
    refine ⟨fun j r hr => ?_, fun j r hr hl => ?_, fun j hj => ?_, (fun _ _ _ hh => by cases hh),
      (fun _ hh => by cases hh)⟩
    · by_cases hj : j < m.searches.length
      · rw [List.getElem?_append_left hj] at hr
        exact h.searches j r hr
      · rw [List.getElem?_append_right (Nat.le_of_not_lt hj), List.getElem?_singleton] at hr
        split at hr
        · cases hr
          exact SearchRace.Inv.begin s
        · cases hr
    · by_cases hj : j < m.searches.length
      · rw [List.getElem?_append_left hj] at hr
        rw [hnl j r hr] at hl
        cases hl
      · have hlen : j = m.searches.length := by
          have := (List.getElem?_eq_some_iff.1 hr).1
          simp only [List.length_append, List.length_singleton] at this
          omega
        exact .inl (by rw [hlen])
    · cases hj
      exact ⟨rfl, by simp⟩
  · refine ⟨h.searches, fun j r hr hl => ?_, (fun _ hj => by rw [hcur] at hj; cases hj),
      (fun _ _ _ hh => by cases hh), (fun _ hh => by cases hh)⟩
    rw [hnl j r hr] at hl
    cases hl

theorem Inv.ownerStep (h : m.Inv) : m.ownerStep.Inv := by
  cases ho : m.owner with
  | idle =>
    cases hcalls : m.calls with
    | nil => rwa [show m.ownerStep = m by simp [CoordinatorRace.ownerStep, ho, hcalls]]
    | cons call rest => exact h.beginCall ho hcalls
  | halting i k next => exact h.haltStep ho
  | starting c => exact h.startStep ho

/-- **The invariant along every schedule.** -/
theorem Inv.run (h : m.Inv) (schedule : List CoordinatorActor) : (m.run schedule).Inv := by
  induction schedule generalizing m with
  | nil => exact h
  | cons a rest ih =>
    cases a with
    | owner => exact ih h.ownerStep
    | worker j => exact ih (h.worker j)

/-- At most one search is still going. -/
theorem Inv.live_unique (h : m.Inv) {i j : Nat} {ri rj : SearchRace} (hi : m.searches[i]? = some ri)
    (hj : m.searches[j]? = some rj) (hli : ri.search.state.live = true)
    (hlj : rj.search.state.live = true) : i = j := by
  rcases h.live i ri hi hli with hci | ⟨k, next, hhi⟩ <;>
    rcases h.live j rj hj hlj with hcj | ⟨k', next', hhj⟩
  · exact Option.some.inj (hci.symm.trans hcj)
  · rw [(h.current i hci).1] at hhj
    cases hhj
  · rw [(h.current j hcj).1] at hhi
    cases hhi
  · rw [hhi] at hhj
    simp only [Owner.halting.injEq] at hhj
    exact hhj.1

end CoordinatorRace

/-! ## Stopping searches, under every interleaving -/

/-- **Stopping searches is safe under every interleaving.** For a search raced by any callers,
after any schedule: the state was reached from `created` by the moves, the next step keeps it
or makes one move, and an ended search stays ended; at most one stop has returned true; the run
returns a block in exactly the step that moves the search from `running` to `found`, which a
found solution takes exactly when no stop has returned true; once the run has returned, the
search is `found` or `halted`; and a halt returned `found` when exactly one block was sent and
`halted` when none was. For a coordinator, after any schedule of its calls and its workers: at
most one of its searches is still going, and each of them has sent at most one block. -/
theorem searches_stop_safely :
    (∀ (s : Search) (schedule : List SearchActor),
      let r := (SearchRace.begin s).run schedule
      Relation.ReflTransGen SearchState.Advance .created r.search.state ∧
      (∀ a, SearchState.Follows r.search.state (r.step a).search.state) ∧
      (r.search.state.live = false → ∀ more, (r.run more).search.state = r.search.state) ∧
      r.callers.countP Caller.won ≤ 1 ∧
      ((∃ b, (r.step .worker).worker = .returned (some b)) ↔
        r.search.state = .running ∧ (r.step .worker).search.state = .found) ∧
      (∀ hd, r.worker = .solved hd →
        ((r.step .worker).worker = .returned (some ⟨hd, r.search.transactions⟩) ↔
          r.callers.countP Caller.won = 0)) ∧
      (r.worker.done = true → r.search.state = .found ∨ r.search.state = .halted) ∧
      (∀ w st, Caller.joined w st ∈ r.callers →
        (st = .found ↔ r.sent.length = 1) ∧ (st = .halted ↔ r.sent = []))) ∧
    (∀ (c : Coordinator) (calls : List CoordinatorCall) (schedule : List CoordinatorActor),
      let m := (CoordinatorRace.begin c calls).run schedule
      (∀ (i j : Nat) (ri rj : SearchRace), m.searches[i]? = some ri → m.searches[j]? = some rj →
        ri.search.state.live = true → rj.search.state.live = true → i = j) ∧
      ∀ r ∈ m.searches, r.sent.length ≤ 1) := by
  refine ⟨fun s schedule => ?_, fun c calls schedule => ?_⟩
  · have h := (SearchRace.Inv.begin s).run schedule
    exact ⟨SearchRace.reaches_run (SearchRace.begin s) schedule, SearchRace.step_follows _,
      fun hl more => SearchRace.run_ended hl more, h.wins_le_one,
      SearchRace.workerStep_returns_block_iff _, fun _ hw => h.publish_iff hw, h.ended_of_done,
      fun _ _ hj => h.joined_reads hj⟩
  · have h := (CoordinatorRace.Inv.begin c calls).run schedule
    refine ⟨fun i j ri rj hi hj hli hlj => h.live_unique hi hj hli hlj, fun r hr => ?_⟩
    obtain ⟨i, hi⟩ := List.mem_iff_getElem?.1 hr
    exact (h.searches i r hi).length_sent_le

end WorkLedger.Mining
