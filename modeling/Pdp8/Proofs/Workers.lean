import Pdp8.Proofs.Reachable
import Pdp8.Runner.Interleaving

/-!
# Pdp8.Proofs.Workers — what a client's call may rely on

Between two actions of a call any worker may take a turn, and a worker that ought to leave may find
the machine running again before it has looked.  What holds nevertheless depends on what is left to
be done of the call (`Fits`): a machine is only started once every worker has left, and whoever has
stopped it waits until its worker has.
-/

namespace Pdp8.Runner

variable {r r' : Runner} {i j : Nat} {halting : Bool}

/-! ## Workers -/

/-- No worker may still step the machine. -/
def Deserted (r : Runner) : Prop := ∀ i, r.isAlive i = false

/-- Only the worker that the client has not yet waited for may still step the machine. -/
def Owned (r : Runner) : Prop := ∀ i, r.isAlive i = true → r.awaited = some i

/-- The machine runs if and only if some worker may still step it, which the client has then not yet
waited for. -/
structure Settled (r : Runner) : Prop where
  owned : r.Owned
  running : (∃ i, r.isAlive i = true) ↔ r.machine.running = true

/-- The machine has been stopped, and its worker may not know yet. -/
structure Parting (r : Runner) : Prop where
  owned : r.Owned
  stopped : r.machine.running = false

/-- The machine is stopped, and no worker may still step it. -/
structure Still (r : Runner) : Prop where
  deserted : r.Deserted
  stopped : r.machine.running = false

/-- The machine is to run, and there is no worker yet. -/
structure Poised (r : Runner) : Prop where
  deserted : r.Deserted
  running : r.machine.running = true

theorem Deserted.not_alive (h : r.Deserted) : ¬ r.isAlive i = true := by
  rw [h i]
  exact Bool.false_ne_true

theorem Deserted.owned (h : r.Deserted) : r.Owned := fun _ hi => absurd hi h.not_alive

theorem Still.settled (h : r.Still) : r.Settled := by
  refine ⟨h.deserted.owned, ?_⟩
  rw [h.stopped]
  constructor
  · rintro ⟨i, hi⟩
    exact absurd hi h.deserted.not_alive
  · exact nofun

theorem Settled.still (h : r.Settled) (hstopped : r.machine.running = false) : r.Still := by
  refine ⟨fun i => ?_, hstopped⟩
  cases hi : r.isAlive i with
  | false => rfl
  | true =>
    rw [h.running.mp ⟨i, hi⟩] at hstopped
    cases hstopped

theorem isAlive_iff :
    r.isAlive i = true ↔ r.workers[i]? = some .spawned ∨ r.workers[i]? = some .working := by
  unfold isAlive
  cases r.workers[i]? with
  | none => simp
  | some phase => cases phase <;> simp

theorem lt_of_isAlive (hi : r.isAlive i = true) : i < r.workers.length := by
  rcases isAlive_iff.mp hi with hphase | hphase
  · exact (List.getElem?_eq_some_iff.mp hphase).1
  · exact (List.getElem?_eq_some_iff.mp hphase).1

/-- A worker that gets to another phase leaves the others as they are. -/
theorem isAlive_enter (phase : WorkerPhase) (event : Event) (hi : r.isAlive i = true) :
    (r.enter i phase event).isAlive j = if j = i then phase != .gone else r.isAlive j := by
  have hlt := lt_of_isAlive hi
  unfold enter isAlive
  dsimp only
  rw [List.getElem?_set]
  by_cases hj : j = i
  · subst hj
    rw [if_pos rfl, if_pos hlt, if_pos rfl]
  · rw [if_neg (Ne.symm hj), if_neg hj]

/-- A spawned worker is one more. -/
theorem isAlive_spawn :
    r.spawn.isAlive j = if j = r.workers.length then true else r.isAlive j := by
  unfold spawn isAlive
  dsimp only
  by_cases hj : j = r.workers.length
  · rw [if_pos hj, hj, List.getElem?_concat_length]
    rfl
  · rw [if_neg hj]
    rcases Nat.lt_or_gt_of_ne hj with hlt | hgt
    · rw [List.getElem?_append_left hlt]
    · rw [List.getElem?_eq_none (by rw [List.length_append, List.length_singleton]; omega),
        List.getElem?_eq_none (by omega)]

theorem turn_of_spawned (h : r.workers[i]? = some .spawned) :
    r.turn i = .ok (r.enter i .working .workerStarted) := by
  unfold turn
  rw [h]

/-- All that a worker can do: it begins, finds the machine stopped, or steps it. -/
theorem turn_cases (hi : r.isAlive i = true) (h : r.turn i = .ok r') :
    r' = r.enter i .working .workerStarted ∨
      (r.machine.running = false ∧ r' = r.leave i) ∨
      (r.machine.running = true ∧ ∃ o m, r.machine.step = .ok (o, m) ∧
        r' = if o = .halted ∨ m.running = false then { r with machine := m }.leave i
          else { r with machine := m }) := by
  rcases isAlive_iff.mp hi with hphase | hphase
  · rw [turn_of_spawned hphase] at h
    cases h
    exact .inl rfl
  · unfold turn at h
    rw [hphase] at h
    dsimp only at h
    cases hrun : r.machine.running with
    | false =>
      rw [if_neg (Bool.eq_false_iff.mp hrun)] at h
      cases h
      exact .inr (.inl ⟨rfl, rfl⟩)
    | true =>
      rw [if_pos hrun] at h
      cases hs : r.machine.step with
      | error f =>
        rw [hs] at h
        cases h
      | ok result =>
        obtain ⟨o, m⟩ := result
        rw [hs] at h
        cases h
        exact .inr (.inr ⟨rfl, o, m, rfl, rfl⟩)

/-- What a turn of worker `i` comes to: it goes on, or it leaves and the machine is stopped. -/
structure Turned (i : Nat) (r r' : Runner) : Prop where
  awaited : r'.awaited = r.awaited
  others : ∀ j, j ≠ i → r'.isAlive j = r.isAlive j
  length : r'.workers.length = r.workers.length
  self : (r'.isAlive i = true ∧ r'.machine.running = r.machine.running) ∨
    (r'.isAlive i = false ∧ r'.machine.running = false)

theorem turned_began (hi : r.isAlive i = true) :
    Turned i r (r.enter i .working .workerStarted) := by
  refine ⟨rfl, ?_, List.length_set, .inl ⟨?_, rfl⟩⟩
  · intro j hj
    rw [isAlive_enter _ _ hi, if_neg hj]
  · rw [isAlive_enter _ _ hi, if_pos rfl]
    rfl

/-- A worker leaves a machine that is stopped, by its own last step or by somebody else. -/
theorem turned_left {m : Machine} (hi : r.isAlive i = true) (hstopped : m.running = false) :
    Turned i r ({ r with machine := m }.leave i) := by
  have hi' : isAlive i { r with machine := m } = true := hi
  refine ⟨rfl, ?_, List.length_set, .inr ⟨?_, hstopped⟩⟩
  · intro j hj
    unfold leave
    rw [isAlive_enter _ _ hi', if_neg hj]
    rfl
  · unfold leave
    rw [isAlive_enter _ _ hi', if_pos rfl]
    rfl

theorem turned (hm : r.machine.Sound) (hi : r.isAlive i = true) (h : r.turn i = .ok r') :
    Turned i r r' := by
  rcases turn_cases hi h with rfl | ⟨hstopped, rfl⟩ | ⟨hrun, o, m, hs, rfl⟩
  · exact turned_began hi
  · exact turned_left hi hstopped
  · obtain ⟨p, -, rfl⟩ := Machine.exists_of_step (hm.halted hrun) hs
    cases o with
    | halted =>
      rw [if_pos (.inl rfl)]
      exact turned_left hi rfl
    | proceed =>
      have hgoes : (r.machine.stepped .proceed p).running = true := hrun
      rw [if_neg (by simp [hgoes])]
      exact ⟨rfl, fun _ _ => rfl, rfl, .inl ⟨hi, rfl⟩⟩

/-! ## Turns between the actions of a call -/

theorem Turned.owned (h : Turned i r r') (hi : r.isAlive i = true) (hr : r.Owned) : r'.Owned := by
  intro j hj
  rw [h.awaited]
  by_cases he : j = i
  · rw [he]
    exact hr i hi
  · rw [h.others j he] at hj
    exact hr j hj

theorem Turned.parting (h : Turned i r r') (hi : r.isAlive i = true) (hr : r.Parting) :
    r'.Parting := by
  refine ⟨h.owned hi hr.owned, ?_⟩
  rcases h.self with ⟨-, hrun⟩ | ⟨-, hrun⟩
  · rw [hrun, hr.stopped]
  · exact hrun

theorem Turned.settled (h : Turned i r r') (hi : r.isAlive i = true) (hr : r.Settled) :
    r'.Settled := by
  refine ⟨h.owned hi hr.owned, ?_⟩
  rcases h.self with ⟨hself, hrun⟩ | ⟨hself, hrun⟩
  · rw [hrun, ← hr.running]
    exact ⟨fun _ => ⟨i, hi⟩, fun _ => ⟨i, hself⟩⟩
  · rw [hrun]
    refine ⟨?_, nofun⟩
    rintro ⟨j, hj⟩
    by_cases he : j = i
    · rw [he, hself] at hj
      cases hj
    · -- the client has waited for all others
      rw [h.others j he] at hj
      have hboth := (hr.owned j hj).symm.trans (hr.owned i hi)
      exact absurd (Option.some.inj hboth) he

/-! ## Calls, action by action -/

/-- Whether a call has to leave the machine stopped, as soon as it begins. -/
def Call.halts : Call → Bool
  | .singleStep => true
  | .stop => true
  | _ => false

/-- Whether it still has to after an action of the client: a write that stops the machine has to,
unless its keys start the machine again. -/
def haltsAfter (halting : Bool) (r : Runner) : ClientAction → Bool
  | .accept v => (r.accept v).1.stopRequested
  | .press keys =>
    match r.press keys with
    | .error _ => halting
    | .ok (start, _) => halting && !start
  | _ => halting

/-- What a call that stops nothing has left to do, when the machine and its worker agree. -/
inductive Simple : List ClientAction → Prop
  | nil : Simple []
  | accept (v : PinVector) : Simple [.accept v]
  | press (keys : Keys) : Simple [.press keys]
  | requestInterrupt : Simple [.requestInterrupt]
  | look : Simple [.look]
  | join : Simple [.join]

/-- What a call may have left to do once it has stopped the machine and waited for its worker. -/
inductive Final : List ClientAction → Prop
  | nil : Final []
  | stepOnce : Final [.stepOnce]
  | press (keys : Keys) : Final [.press keys]

/-- What holds while so much of a call is left to be done. -/
inductive Fits (r : Runner) : Bool → List ClientAction → Prop
  | settled {todo : List ClientAction} : Simple todo → r.Settled → Fits r false todo
  | halt {rest : List ClientAction} : Final rest → r.Settled → Fits r true (.halt :: .join :: rest)
  | parting {rest : List ClientAction} : Final rest → r.Parting → Fits r true (.join :: rest)
  | still {rest : List ClientAction} : Final rest → r.Still → Fits r true rest
  | join : r.Poised → Fits r false [.join, .spawn]
  | spawn : r.Poised → Fits r false [.spawn]

/-- Between two calls, the machine and its worker agree. -/
theorem Fits.settled_of_nil (h : Fits r halting []) : r.Settled := by
  cases h with
  | settled _ hr => exact hr
  | still _ hr => exact hr.settled

theorem Fits.still_of_nil (h : Fits r true []) : r.Still := by
  cases h with
  | still _ hr => exact hr

theorem Fits.call (h : Fits r halting []) (c : Call) : Fits r c.halts c.actions := by
  have hr := h.settled_of_nil
  cases c with
  | writePins v => exact .settled (.accept v) hr
  | singleStep => exact .halt .stepOnce hr
  | stop => exact .halt .nil hr
  | wait => exact .settled .join hr
  | requestInterrupt => exact .settled .requestInterrupt hr
  | look => exact .settled .look hr

theorem Fits.turn {todo : List ClientAction} (h : Fits r halting todo) (ht : Turned i r r')
    (hi : r.isAlive i = true) : Fits r' halting todo := by
  have hdeserted (hr : r.Deserted) : Fits r' halting todo := absurd hi hr.not_alive
  cases h with
  | settled hsimple hr => exact .settled hsimple (ht.settled hi hr)
  | halt hfinal hr => exact .halt hfinal (ht.settled hi hr)
  | parting hfinal hr => exact .parting hfinal (ht.parting hi hr)
  | still _ hr => exact hdeserted hr.deserted
  | join hr => exact hdeserted hr.deserted
  | spawn hr => exact hdeserted hr.deserted

/-- What does not start or stop the machine does not matter. -/
theorem Fits.onMachine {todo : List ClientAction} {f : Machine → Machine}
    (h : Fits r halting todo) (hf : (f r.machine).running = r.machine.running) :
    Fits (r.onMachine f) halting todo := by
  have hstopped (hr : r.machine.running = false) : (r.onMachine f).machine.running = false :=
    hf.trans hr
  cases h with
  | settled hsimple hr => exact .settled hsimple ⟨hr.owned, hr.running.trans (by rw [← hf]; rfl)⟩
  | halt hfinal hr => exact .halt hfinal ⟨hr.owned, hr.running.trans (by rw [← hf]; rfl)⟩
  | parting hfinal hr => exact .parting hfinal ⟨hr.owned, hstopped hr.stopped⟩
  | still hfinal hr => exact .still hfinal ⟨hr.deserted, hstopped hr.stopped⟩
  | join hr => exact .join ⟨hr.deserted, hf.trans hr.running⟩
  | spawn hr => exact .spawn ⟨hr.deserted, hf.trans hr.running⟩

section Actions

variable {a : ClientAction} {more rest : List ClientAction} {keys : Keys} {start : Bool}

/-- A worker that has been waited for is gone, and with it all of them. -/
theorem Owned.deserted (h : r.Owned) (hwait : r.mustWait = false) : r.Deserted := by
  intro i
  cases hi : r.isAlive i with
  | false => rfl
  | true =>
    unfold mustWait at hwait
    rw [h i hi] at hwait
    exact hi.symm.trans hwait

theorem act_press (h : r.act (.press keys) = some (.ok (more, r'))) :
    ∃ start m, r.machine.pressKeys keys = .ok (start, m) ∧ more = afterPress start ∧
      r' = { r with machine := m } := by
  unfold act press at h
  dsimp only at h
  cases hk : r.machine.pressKeys keys with
  | error f =>
    rw [hk] at h
    cases h
  | ok result =>
    obtain ⟨start, m⟩ := result
    rw [hk] at h
    cases h
    exact ⟨start, m, rfl, rfl, rfl⟩

theorem Fits.press (hm : r.machine.Sound) (hr : r.Settled) (hstill : halting = true → r.Still)
    (h : r.act (.press keys) = some (.ok (more, r'))) :
    Fits r' (haltsAfter halting r (.press keys)) more := by
  obtain ⟨start, m, hk, rfl, rfl⟩ := act_press h
  have hafter : haltsAfter halting r (.press keys) = (halting && !start) := by
    unfold haltsAfter Runner.press
    dsimp only
    rw [hk]
  rw [hafter]
  cases hrun : r.machine.running with
  | true =>
    rw [Machine.pressKeys_of_running hrun] at hk
    cases hk
    cases halting with
    | false => exact .settled .nil hr
    | true =>
      have hstopped := (hstill rfl).stopped
      rw [hrun] at hstopped
      cases hstopped
  | false =>
    obtain ⟨hm', -⟩ := Machine.running_of_pressKeys hm hrun hk
    have hdeserted := (hr.still hrun).deserted
    cases start with
    | true =>
      rw [Bool.not_true, Bool.and_false]
      exact .join ⟨hdeserted, hm'⟩
    | false =>
      have hr' : Still { r with machine := m } := ⟨hdeserted, hm'⟩
      cases halting with
      | false => exact .settled .nil hr'.settled
      | true => exact .still .nil hr'

theorem Fits.accept (hr : r.Settled) (v : PinVector) :
    Fits (r.accept v).2 (r.accept v).1.stopRequested (afterAccept (r.accept v).1) := by
  have hrun : (r.accept v).2.machine.running =
      (r.machine.running && !(r.accept v).1.stopRequested) := (Machine.acceptPins_same v _).1
  unfold afterAccept
  cases hstop : (r.accept v).1.stopRequested with
  | true =>
    rw [hstop, Bool.not_true, Bool.and_false] at hrun
    exact .parting (.press _) ⟨hr.owned, hrun⟩
  | false =>
    rw [hstop, Bool.not_false, Bool.and_true] at hrun
    refine .settled (.press _) ⟨hr.owned, ?_⟩
    rw [hrun]
    exact hr.running

theorem act_join (h : r.act .join = some (.ok (more, r'))) :
    r.mustWait = false ∧ more = [] ∧ r' = r.dismiss := by
  unfold act at h
  dsimp only at h
  cases hwait : r.mustWait with
  | true =>
    rw [hwait] at h
    cases h
  | false =>
    rw [hwait] at h
    cases h
    exact ⟨rfl, rfl, rfl⟩

theorem act_stepOnce (h : r.act .stepOnce = some (.ok (more, r'))) :
    ∃ o m, r.machine.step = .ok (o, m) ∧ more = [] ∧ r' = { r with machine := m } := by
  unfold act stepOnce at h
  dsimp only at h
  cases hs : r.machine.step with
  | error f =>
    rw [hs] at h
    cases h
  | ok result =>
    obtain ⟨o, m⟩ := result
    rw [hs] at h
    cases h
    exact ⟨o, m, rfl, rfl, rfl⟩

/-- The worker that is spawned is the only one. -/
theorem Poised.spawn (h : r.Poised) : r.spawn.Settled := by
  have halive (i : Nat) : r.spawn.isAlive i = true ↔ i = r.workers.length := by
    rw [isAlive_spawn, h.deserted i]
    by_cases hi : i = r.workers.length
    · rw [if_pos hi]
      exact ⟨fun _ => hi, fun _ => rfl⟩
    · rw [if_neg hi]
      exact ⟨nofun, fun he => absurd he hi⟩
  constructor
  · intro i hi
    rw [(halive i).mp hi]
    rfl
  · refine ⟨fun _ => h.running, fun _ => ⟨r.workers.length, ?_⟩⟩
    exact (halive _).mpr rfl

/-- Every action of the client leaves what has to hold for the rest of its call. -/
theorem Fits.act (h : Fits r halting (a :: rest)) (hm : r.machine.Sound)
    (hact : r.act a = some (.ok (more, r'))) :
    Fits r' (haltsAfter halting r a) (more ++ rest) := by
  cases h with
  | settled hsimple hr =>
    cases hsimple with
    | accept v =>
      cases hact
      rw [List.append_nil]
      exact .accept hr v
    | press keys =>
      rw [List.append_nil]
      exact .press hm hr nofun hact
    | requestInterrupt =>
      cases hact
      exact .settled .nil ⟨hr.owned, hr.running⟩
    | look =>
      cases hact
      exact .settled .nil hr
    | join =>
      obtain ⟨hwait, rfl, rfl⟩ := act_join hact
      have hdeserted : r.dismiss.Deserted := hr.owned.deserted hwait
      exact .settled .nil ⟨hdeserted.owned, hr.running⟩
  | halt hfinal hr =>
    cases hact
    exact .parting hfinal ⟨hr.owned, r.machine.running_stop⟩
  | parting hfinal hr =>
    obtain ⟨hwait, rfl, rfl⟩ := act_join hact
    exact .still hfinal ⟨hr.owned.deserted hwait, hr.stopped⟩
  | still hfinal hr =>
    cases hfinal with
    | press keys =>
      rw [List.append_nil]
      exact .press hm hr.settled (fun _ => hr) hact
    | stepOnce =>
      obtain ⟨o, m, hs, rfl, rfl⟩ := act_stepOnce hact
      exact .still .nil ⟨hr.deserted, Machine.running_of_step hr.stopped hs⟩
  | join hr =>
    obtain ⟨-, rfl, rfl⟩ := act_join hact
    exact .spawn ⟨hr.deserted, hr.running⟩
  | spawn hr =>
    cases hact
    exact .settled .nil hr.spawn

end Actions

end Pdp8.Runner
