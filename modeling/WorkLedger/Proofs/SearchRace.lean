import Mathlib.Logic.Relation
import WorkLedger.Mining.Race

/-!
# A search under every interleaving

Each atomic step of a search race either leaves the cell as it is or makes one of four moves:
`created` to `running`, `running` to `found`, `running` to `halted`, `created` to `halted`
(`SearchState.Advance`). No move leaves `found` or `halted`, so a search that has ended stays
as it ended.

Everything else follows from one invariant (`SearchRace.Inv`), which every step keeps:

* the worker, the cell and the channel agree (`Worker.Agrees`): while the worker has not
  returned, the cell is where the worker left it or `halted`; a run that returned a block left
  the cell `found`, a run that returned nothing left it `halted`; once the thread has exited
  it has sent exactly one block if the cell is `found` and none if it is `halted`;
* the callers whose stop returned true are one if the cell is `halted` and none otherwise:
  only a stop's compare-and-swap moves the cell to `halted`, and only once;
* a halt that has returned saw the worker's thread exited and read the cell as it is.

* `SearchRace.step_follows`, `SearchRace.reaches_run`, `SearchRace.run_ended`: the moves of the
  cell.
* `SearchRace.Inv.run`: the invariant along every schedule from a new search.
* `SearchRace.stop_alone`: a stop whose two tries run with nobody in between is `Search.stop`.
-/

namespace WorkLedger.Mining

namespace SearchState

@[simp] theorem transition_self (old new : SearchState) : old.transition old new = (true, new) := by
  simp [transition]

theorem transition_of_ne {cell old : SearchState} (h : cell ≠ old) (new : SearchState) :
    cell.transition old new = (false, cell) := by
  simp [transition, h]

/-- The moves of a search's state: it starts, then finds its block or is halted; or it is
halted before it starts. -/
inductive Advance : SearchState → SearchState → Prop
  | start : Advance .created .running
  | find : Advance .running .found
  | halt : Advance .running .halted
  | cancel : Advance .created .halted

/-- An atomic step keeps the state, or makes one of its moves. -/
def Follows (old new : SearchState) : Prop := new = old ∨ Advance old new

theorem Follows.refl (cell : SearchState) : Follows cell cell := .inl rfl

/-- No move leaves a search that has ended. -/
theorem not_advance_of_ended {old new : SearchState} (h : old.live = false) : ¬Advance old new := by
  rintro (_ | _ | _ | _) <;> simp [live] at h

theorem Follows.eq_of_ended {old new : SearchState} (h : Follows old new) (hl : old.live = false) :
    new = old :=
  h.resolve_right (not_advance_of_ended hl)

end SearchState

namespace SearchRace

variable {r : SearchRace}

/-! ## What each step touches -/

@[simp] theorem setCell_state (r : SearchRace) (cell : SearchState) :
    (r.setCell cell).search.state = cell := rfl
@[simp] theorem setCell_worker (r : SearchRace) (cell : SearchState) :
    (r.setCell cell).worker = r.worker := rfl
@[simp] theorem setCell_callers (r : SearchRace) (cell : SearchState) :
    (r.setCell cell).callers = r.callers := rfl
@[simp] theorem setCell_sent (r : SearchRace) (cell : SearchState) :
    (r.setCell cell).sent = r.sent := rfl

/-- The worker never touches the callers. -/
@[simp] theorem workerStep_callers (r : SearchRace) : r.workerStep.callers = r.callers := by
  unfold workerStep
  split
  · split <;> rfl
  · split
    · split <;> rfl
    · rfl
  · split <;> rfl
  all_goals rfl

/-- A caller never touches the worker or the channel. -/
theorem callerStep_worker_sent (r : SearchRace) (i : Nat) :
    (r.callerStep i).worker = r.worker ∧ (r.callerStep i).sent = r.sent := by
  unfold callerStep
  split
  · split <;> exact ⟨rfl, rfl⟩
  · split <;> exact ⟨rfl, rfl⟩
  · split <;> exact ⟨rfl, rfl⟩
  · exact ⟨rfl, rfl⟩

@[simp] theorem callerStep_worker (r : SearchRace) (i : Nat) : (r.callerStep i).worker = r.worker :=
  (callerStep_worker_sent r i).1

@[simp] theorem callerStep_sent (r : SearchRace) (i : Nat) : (r.callerStep i).sent = r.sent :=
  (callerStep_worker_sent r i).2

/-! ## The moves of the cell -/

/-- The worker's step keeps the cell or moves it from `created` to `running` or from `running`
to `found`. -/
theorem workerStep_state (r : SearchRace) :
    r.workerStep.search.state = r.search.state ∨
      (r.search.state = .created ∧ r.workerStep.search.state = .running) ∨
      (r.search.state = .running ∧ r.workerStep.search.state = .found) := by
  unfold workerStep
  split
  · by_cases hc : r.search.state = .created
    · rw [hc, SearchState.transition_self]
      exact .inr (.inl ⟨rfl, rfl⟩)
    · rw [SearchState.transition_of_ne hc]
      exact .inl rfl
  · split
    · split <;> exact .inl rfl
    · exact .inl rfl
  · by_cases hc : r.search.state = .running
    · rw [hc, SearchState.transition_self]
      exact .inr (.inr ⟨rfl, rfl⟩)
    · rw [SearchState.transition_of_ne hc]
      exact .inl rfl
  all_goals exact .inl rfl

/-- A caller's step keeps the cell or halts a search that is still going. -/
theorem callerStep_state (r : SearchRace) (i : Nat) :
    (r.callerStep i).search.state = r.search.state ∨
      (r.search.state.live = true ∧ (r.callerStep i).search.state = .halted) := by
  unfold callerStep
  split
  · by_cases hc : r.search.state = .running
    · rw [hc, SearchState.transition_self]
      exact .inr ⟨rfl, rfl⟩
    · rw [SearchState.transition_of_ne hc]
      exact .inl rfl
  · by_cases hc : r.search.state = .created
    · rw [hc, SearchState.transition_self]
      exact .inr ⟨rfl, rfl⟩
    · rw [SearchState.transition_of_ne hc]
      exact .inl rfl
  · split <;> exact .inl rfl
  · exact .inl rfl

/-- **Every atomic step follows the moves.** Whoever takes it, the cell stays or makes one of
the four moves. -/
theorem step_follows (r : SearchRace) (a : SearchActor) :
    SearchState.Follows r.search.state (r.step a).search.state := by
  cases a with
  | worker =>
    rcases workerStep_state r with h | ⟨h₀, h₁⟩ | ⟨h₀, h₁⟩
    · exact .inl h
    · exact .inr (h₀ ▸ h₁ ▸ .start)
    · exact .inr (h₀ ▸ h₁ ▸ .find)
  | caller i =>
    rcases callerStep_state r i with h | ⟨hl, h⟩
    · exact .inl h
    · show SearchState.Follows _ (r.callerStep i).search.state
      rw [h]
      cases hc : r.search.state with
      | created => exact .inr .cancel
      | running => exact .inr .halt
      | found | halted => simp [hc, SearchState.live] at hl
  | arrive c => exact .refl _

/-- **An ended search stays as it ended**, whatever runs after. -/
theorem run_ended (h : r.search.state.live = false) (schedule : List SearchActor) :
    (r.run schedule).search.state = r.search.state := by
  induction schedule generalizing r with
  | nil => rfl
  | cons a rest ih =>
    have hstep := (step_follows r a).eq_of_ended h
    show ((r.step a).run rest).search.state = _
    rw [ih (hstep ▸ h), hstep]

/-- **Along a run the cell only makes moves**: what it holds after any schedule is reached from
what it held before by a chain of moves. -/
theorem reaches_run (r : SearchRace) (schedule : List SearchActor) :
    Relation.ReflTransGen SearchState.Advance r.search.state (r.run schedule).search.state := by
  induction schedule generalizing r with
  | nil => exact .refl
  | cons a rest ih =>
    have hstep : Relation.ReflTransGen SearchState.Advance r.search.state (r.step a).search.state := by
      rcases step_follows r a with h | h
      · rw [h]
      · exact .single h
    exact hstep.trans (ih (r.step a))

end SearchRace

/-! ## The invariant -/

/-- What the worker's progress says of the cell and of the blocks it sent. -/
def Worker.Agrees : Worker → SearchState → List Block → Prop
  | .start, cell, sent => (cell = .created ∨ cell = .halted) ∧ sent = []
  | .solving _, cell, sent => (cell = .running ∨ cell = .halted) ∧ sent = []
  | .solved _, cell, sent => (cell = .running ∨ cell = .halted) ∧ sent = []
  | .returned (some _), cell, sent => cell = .found ∧ sent = []
  | .returned none, cell, sent => cell = .halted ∧ sent = []
  | .exited, cell, sent => (cell = .found ∧ sent.length = 1) ∨ (cell = .halted ∧ sent = [])

/-- Whether the worker's run has returned. -/
def Worker.done : Worker → Bool
  | .returned _ | .exited => true
  | .start | .solving _ | .solved _ => false

namespace Worker

/-- A search whose run has returned has ended. -/
theorem Agrees.ended {w : Worker} {cell : SearchState} {sent : List Block} (h : w.Agrees cell sent)
    (hd : w.done = true) : cell.live = false := by
  cases w with
  | returned b => cases b <;> simp_all [Agrees, SearchState.live]
  | exited => rcases h with ⟨rfl, -⟩ | ⟨rfl, -⟩ <;> rfl
  | start | solving _ | solved _ => simp [done] at hd

/-- A worker sends at most one block. -/
theorem Agrees.length_sent_le {w : Worker} {cell : SearchState} {sent : List Block}
    (h : w.Agrees cell sent) : sent.length ≤ 1 := by
  cases w with
  | returned b => cases b <;> simp_all [Agrees]
  | exited =>
    rcases h with ⟨-, hlen⟩ | ⟨-, rfl⟩
    · exact Nat.le_of_eq hlen
    · simp
  | start | solving _ | solved _ => simp_all [Agrees]

/-- A stop that halts a search that is still going keeps the worker in agreement. -/
theorem Agrees.halt {w : Worker} {cell : SearchState} {sent : List Block} (h : w.Agrees cell sent)
    (hl : cell.live = true) : w.Agrees .halted sent := by
  cases w with
  | start | solving _ | solved _ => exact ⟨.inr rfl, h.2⟩
  | returned b =>
    cases b <;> (obtain ⟨rfl, -⟩ := h; simp [SearchState.live] at hl)
  | exited => rcases h with ⟨rfl, -⟩ | ⟨rfl, -⟩ <;> simp [SearchState.live] at hl

end Worker

/-- What every run of a search keeps. -/
structure SearchRace.Inv (r : SearchRace) : Prop where
  /-- The worker, the cell and the channel agree. -/
  worker : r.worker.Agrees r.search.state r.sent
  /-- One stop returned true if the search was halted, and none otherwise. -/
  wins : r.callers.countP Caller.won = if r.search.state = .halted then 1 else 0
  /-- A halt that returned saw the worker's thread exited and read the cell. -/
  joined : ∀ w s, Caller.joined w s ∈ r.callers → r.worker = .exited ∧ s = r.search.state

namespace SearchRace

variable {r : SearchRace}

theorem Inv.begin (s : Search) : (begin s).Inv where
  worker := ⟨.inl rfl, rfl⟩
  wins := rfl
  joined _ _ h := by cases h

/-! ### The worker's step -/

theorem workerStep_exited (hw : r.worker = .exited) : r.workerStep = r := by
  simp [workerStep, hw]

/-- The worker's step keeps the worker, the cell and the channel in agreement. -/
theorem agrees_workerStep (h : r.worker.Agrees r.search.state r.sent) :
    r.workerStep.worker.Agrees r.workerStep.search.state r.workerStep.sent := by
  rcases r with ⟨s, w, callers, sent⟩
  cases w with
  | start =>
    obtain ⟨hc | hc, rfl⟩ := h
    · -- the worker starts the search
      simp only at hc
      simp [SearchRace.workerStep, hc, Worker.Agrees]
    · -- halted before it started: the run returns nothing
      simp only at hc
      simp [SearchRace.workerStep, hc, SearchState.transition_of_ne, Worker.Agrees]
  | solving f =>
    obtain ⟨hc | hc, rfl⟩ := h <;> simp only at hc
    · by_cases hm : f.hash.meets s.target <;> simp [SearchRace.workerStep, hc, hm, Worker.Agrees]
    · simp [SearchRace.workerStep, hc, Worker.Agrees]
  | solved hd =>
    obtain ⟨hc | hc, rfl⟩ := h <;> simp only at hc
    · -- the solution is published
      simp [SearchRace.workerStep, hc, Worker.Agrees]
    · -- a stop came first: the solution is dropped
      simp [SearchRace.workerStep, hc, SearchState.transition_of_ne, Worker.Agrees]
  | returned b =>
    cases b with
    | some b =>
      obtain ⟨hc, rfl⟩ := h
      exact .inl ⟨hc, rfl⟩
    | none =>
      obtain ⟨hc, rfl⟩ := h
      exact .inr ⟨hc, rfl⟩
  | exited => exact h

/-- The worker never moves the cell to or from `halted`. -/
theorem workerStep_halted_iff (r : SearchRace) :
    r.workerStep.search.state = .halted ↔ r.search.state = .halted := by
  rcases workerStep_state r with h | ⟨h₀, h₁⟩ | ⟨h₀, h₁⟩ <;> simp [*]

theorem Inv.workerStep (h : r.Inv) : r.workerStep.Inv where
  worker := agrees_workerStep h.worker
  wins := by
    rw [workerStep_callers, h.wins]
    simp only [workerStep_halted_iff]
  joined w s hj := by
    rw [workerStep_callers] at hj
    obtain ⟨hw, hs⟩ := h.joined w s hj
    rw [workerStep_exited hw]
    exact ⟨hw, hs⟩

/-! ### A caller's step -/

@[simp] theorem won_afterStop (c : Call) (w : Bool) : (c.afterStop w).won = w := by
  cases c <;> rfl

/-- Putting `new` in place of caller `old` moves the count of winning stops by the
difference of their answers. -/
theorem countP_won_set {l : List Caller} {i : Nat} {old : Caller} (hi : l[i]? = some old)
    (new : Caller) :
    (l.set i new).countP Caller.won + (if old.won then 1 else 0) =
      l.countP Caller.won + (if new.won then 1 else 0) := by
  obtain ⟨hlt, hget⟩ := List.getElem?_eq_some_iff.1 hi
  rw [List.countP_set hlt, hget]
  by_cases hw : old.won = true
  · -- the count includes `old`, so taking it out does not go below zero
    have hpos : 0 < l.countP Caller.won :=
      List.countP_pos_iff.2 ⟨old, List.mem_of_getElem? hi, hw⟩
    simp only [hw, if_true]
    omega
  · simp only [hw, Bool.false_eq_true, if_false, Nat.sub_zero, Nat.add_zero]

theorem callerStep_first {i : Nat} {c : Call} (hi : r.callers[i]? = some (.first c)) :
    r.callerStep i =
      if r.search.state = .running then
        { r.setCell .halted with callers := r.callers.set i (c.afterStop true) }
      else { r with callers := r.callers.set i (.second c) } := by
  by_cases hs : r.search.state = .running
  · simp [callerStep, hi, hs]
  · simp [callerStep, hi, hs, SearchState.transition_of_ne]

theorem callerStep_second {i : Nat} {c : Call} (hi : r.callers[i]? = some (.second c)) :
    r.callerStep i =
      if r.search.state = .created then
        { r.setCell .halted with callers := r.callers.set i (c.afterStop true) }
      else { r with callers := r.callers.set i (c.afterStop false) } := by
  by_cases hs : r.search.state = .created
  · simp [callerStep, hi, hs]
  · simp [callerStep, hi, hs, SearchState.transition_of_ne]

/-- A halt waiting for the worker returns once the worker's thread has exited, and waits
otherwise. -/
theorem callerStep_joining {i : Nat} {w : Bool} (hi : r.callers[i]? = some (.joining w)) :
    (r.worker = .exited ∧
        r.callerStep i = { r with callers := r.callers.set i (.joined w r.search.state) }) ∨
      r.callerStep i = r := by
  cases hw : r.worker <;> simp [callerStep, hi, hw]

/-- A caller that has returned, or that is not there, takes no step. -/
theorem callerStep_of_returned {i : Nat}
    (hi : r.callers[i]? = none ∨ (∃ w, r.callers[i]? = some (.stopped w)) ∨
      ∃ w s, r.callers[i]? = some (.joined w s)) :
    r.callerStep i = r := by
  rcases hi with hi | ⟨w, hi⟩ | ⟨w, s, hi⟩ <;> simp [callerStep, hi]

/-- A search whose worker's thread has exited has ended. -/
theorem Inv.ended_of_exited (h : r.Inv) (hw : r.worker = .exited) : r.search.state.live = false :=
  h.worker.ended (by rw [hw]; rfl)

/-- A returned halt keeps what it saw when a caller moves on: the worker has exited, so the
cell no longer changes. -/
theorem joined_set (h : r.Inv) {i : Nat} {new : Caller} {cell : SearchState}
    (hcell : r.worker = .exited → cell = r.search.state)
    (hnew : ∀ w s, new = .joined w s → r.worker = .exited ∧ s = cell)
    (w : Bool) (s : SearchState) (hj : Caller.joined w s ∈ r.callers.set i new) :
    r.worker = .exited ∧ s = cell := by
  rcases List.mem_or_eq_of_mem_set hj with hj | hj
  · obtain ⟨hw, hs⟩ := h.joined w s hj
    exact ⟨hw, hs.trans (hcell hw).symm⟩
  · exact hnew w s hj.symm

/-- **One try of a stop.** When the cell holds `old`, a search still going, the caller wins and
the search is halted: nobody had won before, since the search was not halted. Otherwise the
caller moves on without winning and nothing else changes. -/
theorem Inv.tryHalt (h : r.Inv) {i : Nat} {before : Caller} (hi : r.callers[i]? = some before)
    (hb : before.won = false) {old : SearchState} (hold : old.live = true) {win lose : Caller}
    (hwin : win.won = true) (hlose : lose.won = false)
    (hjoin : ∀ w s, win ≠ .joined w s ∧ lose ≠ .joined w s) :
    (if r.search.state = old then { r.setCell .halted with callers := r.callers.set i win }
      else { r with callers := r.callers.set i lose }).Inv := by
  have hcount := countP_won_set hi
  have hne : old ≠ .halted := by
    rintro rfl
    cases hold
  split
  · rename_i hs
    have hw : r.callers.countP Caller.won = 0 := by rw [h.wins, hs, if_neg hne]
    have hwon := hcount win
    simp only [hb, hwin, Bool.false_eq_true, if_false, if_true, Nat.add_zero] at hwon
    refine ⟨h.worker.halt (hs ▸ hold), ?_, ?_⟩
    · show (r.callers.set i win).countP Caller.won = if SearchState.halted = .halted then 1 else 0
      rw [if_pos rfl]
      omega
    · refine joined_set h (fun hx => ?_) (fun w s hj => absurd hj (hjoin w s).1)
      have hend := h.ended_of_exited hx
      rw [hs, hold] at hend
      cases hend
  · have hlost := hcount lose
    simp only [hb, hlose, Bool.false_eq_true, if_false, Nat.add_zero] at hlost
    refine ⟨h.worker, ?_, joined_set h (fun _ => rfl) (fun w s hj => absurd hj (hjoin w s).2)⟩
    show (r.callers.set i lose).countP Caller.won = if r.search.state = .halted then 1 else 0
    rw [hlost, h.wins]

theorem Inv.callerStep (h : r.Inv) (i : Nat) : (r.callerStep i).Inv := by
  cases hi : r.callers[i]? with
  | none => rwa [callerStep_of_returned (.inl hi)]
  | some c =>
    cases c with
    | first c =>
      -- the first try: from `running`
      rw [callerStep_first hi]
      exact h.tryHalt hi rfl rfl (won_afterStop c true) rfl
        (fun w s => ⟨by cases c <;> nofun, nofun⟩)
    | second c =>
      -- the second try: from `created`
      rw [callerStep_second hi]
      exact h.tryHalt hi rfl rfl (won_afterStop c true) (won_afterStop c false)
        (fun w s => ⟨by cases c <;> nofun, by cases c <;> nofun⟩)
    | joining w =>
      rcases callerStep_joining hi with ⟨hw, heq⟩ | heq
      · -- the worker has exited: the halt reads the cell and returns
        rw [heq]
        have hsame := countP_won_set hi (.joined w r.search.state)
        simp only [Caller.won] at hsame
        refine ⟨h.worker, ?_, joined_set h (fun _ => rfl) (fun _ _ hj => ?_)⟩
        · show (r.callers.set i _).countP Caller.won = _
          rw [Nat.add_right_cancel hsame, h.wins]
        · cases hj
          exact ⟨hw, rfl⟩
      · rwa [heq]
    | stopped w => rwa [callerStep_of_returned (.inr (.inl ⟨w, hi⟩))]
    | joined w s => rwa [callerStep_of_returned (.inr (.inr ⟨w, s, hi⟩))]

theorem Inv.arrive (h : r.Inv) (c : Call) : (r.step (.arrive c)).Inv where
  worker := h.worker
  wins := by
    show (r.callers ++ [Caller.first c]).countP Caller.won = _
    rw [List.countP_append, h.wins]
    rfl
  joined w s hj := by
    simp only [step, List.mem_append, List.mem_singleton] at hj
    rcases hj with hj | hj
    · exact h.joined w s hj
    · cases hj

theorem Inv.step (h : r.Inv) : ∀ a, (r.step a).Inv
  | .worker => h.workerStep
  | .caller i => h.callerStep i
  | .arrive c => h.arrive c

/-- **The invariant along every schedule.** -/
theorem Inv.run (h : r.Inv) (schedule : List SearchActor) : (r.run schedule).Inv := by
  induction schedule generalizing r with
  | nil => exact h
  | cons a rest ih => exact ih (h.step a)

/-! ## What the invariant says -/

/-- At most one stop returns true. -/
theorem Inv.wins_le_one (h : r.Inv) : r.callers.countP Caller.won ≤ 1 := by
  rw [h.wins]
  split <;> omega

/-- A search sends at most one block. -/
theorem Inv.length_sent_le (h : r.Inv) : r.sent.length ≤ 1 :=
  h.worker.length_sent_le

/-- Once the worker's run has returned, the search is `found` or `halted`. -/
theorem Inv.ended_of_done (h : r.Inv) (hd : r.worker.done = true) :
    r.search.state = .found ∨ r.search.state = .halted := by
  have hl := h.worker.ended hd
  cases hc : r.search.state <;> simp_all [SearchState.live]

/-- A halt that returned `found` saw exactly one block sent, and one that returned `halted`
saw none. -/
theorem Inv.joined_reads (h : r.Inv) {w : Bool} {st : SearchState}
    (hj : Caller.joined w st ∈ r.callers) :
    (st = .found ↔ r.sent.length = 1) ∧ (st = .halted ↔ r.sent = []) := by
  obtain ⟨hw, rfl⟩ := h.joined w st hj
  have hag := h.worker
  rw [hw] at hag
  rcases hag with ⟨hc, hlen⟩ | ⟨hc, hsent⟩
  · rw [hc]
    exact ⟨iff_of_true rfl hlen, iff_of_false nofun (fun he => by simp [he] at hlen)⟩
  · rw [hc]
    exact ⟨iff_of_false nofun (by simp [hsent]), iff_of_true rfl hsent⟩

/-- **The run returns a block in the very step that moves the search from `running` to
`found`**, and in no other. -/
theorem workerStep_returns_block_iff (r : SearchRace) :
    (∃ b, r.workerStep.worker = .returned (some b)) ↔
      r.search.state = .running ∧ r.workerStep.search.state = .found := by
  rcases r with ⟨s, w, callers, sent⟩
  -- where the cell is not moved, it cannot go from `running` to `found`
  have hstay : ¬(s.state = .running ∧ s.state = .found) := fun ⟨h₁, h₂⟩ => by rw [h₁] at h₂; cases h₂
  cases w with
  | start =>
    by_cases hc : s.state = .created
    · simp [workerStep, hc]
    · simpa [workerStep, hc, SearchState.transition_of_ne] using hstay
  | solving f =>
    by_cases hc : s.state = .running
    · by_cases hm : f.hash.meets s.target <;> simp [workerStep, hc, hm]
    · simp [workerStep, hc]
  | solved hd =>
    by_cases hc : s.state = .running
    · simp [workerStep, hc]
    · simp [workerStep, hc, SearchState.transition_of_ne]
  | returned b => cases b <;> simpa [workerStep] using hstay
  | exited => simpa [workerStep] using hstay

/-- **A found solution is published exactly when no stop has won.** The worker holding a
solution moves the search to `found` and returns the block when no stop has returned true,
and returns nothing otherwise. -/
theorem Inv.publish_iff (h : r.Inv) {hd : Header} (hw : r.worker = .solved hd) :
    r.workerStep.worker = .returned (some ⟨hd, r.search.transactions⟩) ↔
      r.callers.countP Caller.won = 0 := by
  have hag := h.worker
  rw [h.wins]
  rcases r with ⟨s, w, callers, sent⟩
  simp only at hw hag ⊢
  subst hw
  rcases hag.1 with hc | hc
  · -- still running: nobody has won, and the compare-and-swap succeeds
    simp [SearchRace.workerStep, hc]
  · -- halted: one stop has won, and the compare-and-swap fails
    simp [SearchRace.workerStep, hc, SearchState.transition_of_ne]

/-! ## A stop with nobody in between -/

/-- **A stop that runs its two tries with nobody in between is `Search.stop`**: it halts a
search that is created or running and says so, and leaves an ended search as it is. -/
theorem stop_alone (r : SearchRace) (c : Call) :
    let r' := ((r.step (.arrive c)).step (.caller r.callers.length)).step (.caller r.callers.length)
    r'.search = r.search.stop.2 ∧ r'.callers[r.callers.length]?.map Caller.won = some r.search.stop.1 := by
  -- by the state the tries find, and by the call
  cases hs : r.search.state <;> cases c <;>
    simp [step, callerStep, hs, SearchState.transition, Search.stop, setCell, Call.afterStop, Caller.won]
  -- a halt that won then returns at once if the worker has exited, and waits otherwise
  split <;> simp

end SearchRace

end WorkLedger.Mining
