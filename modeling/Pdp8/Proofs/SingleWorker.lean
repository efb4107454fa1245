import Mathlib.Logic.Relation
import Pdp8.Proofs.Workers

/-!
# Pdp8.Proofs.SingleWorker — nobody steps a machine twice

In a `History` the client and the workers move in any order, while the teletype and the clock do as
they like.  At every moment of it the workers are as the rest of the call requires (`Orderly`).  A
worker that has left stays away, so whoever can still come to step the machine is the one worker
that the client has not waited for yet: `single_worker`.
-/

namespace Pdp8.Runner

variable {r r' : Runner} {i j : Nat} {s s' t : Scene} {halting : Bool}

/-! ## Histories -/

/-- What happens next: a move of the client or of a worker, or something that neither has a part in,
which is up to the teletype or the clock. -/
inductive Scene.Next (s : Scene) : Option Move → Scene → Prop
  | move {m : Move} {s' : Scene} : s.move? m = some (.ok s') → Next s (some m) s'
  | teletype (f : Teletype → Teletype) :
    Next s none { s with runner := s.runner.onMachine (Machine.onTeletype f) }
  | wait (interval : Time) :
    Next s none { s with runner := s.runner.onMachine (Machine.advance interval) }

/-- Whether the latest call has to leave the machine stopped, after that. -/
def Scene.haltsAfter (halting : Bool) (s : Scene) : Option Move → Bool
  | some (.call c) => c.halts
  | some .client =>
    match s.todo with
    | [] => halting
    | a :: _ => Runner.haltsAfter halting s.runner a
  | _ => halting

/-- The scenes that a runner comes to, in whatever order the client and the workers move, and whether
the latest call has to leave the machine stopped. -/
inductive History (start : Runner) : Bool → Scene → Prop
  | start : History start false ⟨start, []⟩
  | next {halting : Bool} {s s' : Scene} {m : Option Move} :
    History start halting s → s.Next m s' → History start (s.haltsAfter halting m) s'

theorem move_call {c : Call} (h : s.move? (.call c) = some (.ok s')) :
    s.todo = [] ∧ s' = { s with todo := c.actions } := by
  unfold Scene.move? at h
  dsimp only at h
  split_ifs at h with htodo
  cases h
  exact ⟨List.isEmpty_iff.mp htodo, rfl⟩

theorem move_client (h : s.move? .client = some (.ok s')) :
    ∃ a rest more r, s.todo = a :: rest ∧ s.runner.act a = some (.ok (more, r)) ∧
      s' = ⟨r, more ++ rest⟩ := by
  unfold Scene.move? at h
  dsimp only at h
  cases htodo : s.todo with
  | nil =>
    rw [htodo] at h
    cases h
  | cons a rest =>
    rw [htodo] at h
    dsimp only at h
    cases hact : s.runner.act a with
    | none =>
      rw [hact] at h
      cases h
    | some result =>
      rw [hact] at h
      cases result with
      | error f => cases h
      | ok result =>
        obtain ⟨more, r⟩ := result
        cases h
        exact ⟨a, rest, more, r, rfl, hact, rfl⟩

theorem move_worker (h : s.move? (.worker i) = some (.ok s')) :
    s.runner.isAlive i = true ∧ ∃ r, s.runner.turn i = .ok r ∧ s' = { s with runner := r } := by
  unfold Scene.move? at h
  dsimp only at h
  split_ifs at h with halive
  cases hturn : s.runner.turn i with
  | error f =>
    rw [hturn] at h
    cases h
  | ok r =>
    rw [hturn] at h
    cases h
    exact ⟨halive, r, rfl, rfl⟩

theorem reachable_act {a : ClientAction} {more : List ClientAction}
    (hm : r.machine.Reachable) (h : r.act a = some (.ok (more, r'))) : r'.machine.Reachable := by
  cases a with
  | accept v =>
    cases h
    exact hm.acceptPins v
  | press keys =>
    obtain ⟨start, m, hk, -, rfl⟩ := act_press h
    exact hm.pressKeys hk
  | halt =>
    cases h
    exact hm.stop
  | stepOnce =>
    obtain ⟨o, m, hs, -, rfl⟩ := act_stepOnce h
    exact hm.step hs
  | requestInterrupt =>
    cases h
    exact hm.requestInterrupt
  | look =>
    cases h
    exact hm
  | spawn =>
    cases h
    exact hm
  | join =>
    obtain ⟨-, -, rfl⟩ := act_join h
    exact hm

theorem reachable_turn (hm : r.machine.Reachable) (hi : r.isAlive i = true)
    (h : r.turn i = .ok r') : r'.machine.Reachable := by
  rcases turn_cases hi h with rfl | ⟨-, rfl⟩ | ⟨-, o, m, hs, rfl⟩
  · exact hm.report _
  · exact hm.report _
  · split_ifs
    · exact (hm.step hs).report _
    · exact hm.step hs

/-- What holds all along: the machine is a reachable one, and the workers are as the rest of the
call requires. -/
structure Orderly (halting : Bool) (s : Scene) : Prop where
  reachable : s.runner.machine.Reachable
  fits : Fits s.runner halting s.todo

theorem orderly_powerUp (setup : Setup) (table : PinTable) (keyboard : Keyboard) (sink : Sink)
    (clock : Clock) : Orderly false ⟨powerUp setup table keyboard sink clock, []⟩ := by
  have hstill : Still (powerUp setup table keyboard sink clock) := ⟨fun _ => rfl, rfl⟩
  exact ⟨.powerUp _ _ _ _, .settled .nil hstill.settled⟩

theorem Orderly.move {m : Move} (h : Orderly halting s) (hm : s.move? m = some (.ok s')) :
    Orderly (s.haltsAfter halting (some m)) s' := by
  cases m with
  | call c =>
    obtain ⟨htodo, rfl⟩ := move_call hm
    have hfits := h.fits
    rw [htodo] at hfits
    exact ⟨h.reachable, hfits.call c⟩
  | client =>
    obtain ⟨a, rest, more, r, htodo, hact, rfl⟩ := move_client hm
    have hfits := h.fits
    rw [htodo] at hfits
    have hafter : s.haltsAfter halting (some .client) = haltsAfter halting s.runner a := by
      unfold Scene.haltsAfter
      rw [htodo]
    rw [hafter]
    exact ⟨reachable_act h.reachable hact, hfits.act h.reachable.sound hact⟩
  | worker i =>
    obtain ⟨halive, r, hturn, rfl⟩ := move_worker hm
    have hturned := turned h.reachable.sound halive hturn
    exact ⟨reachable_turn h.reachable halive hturn, h.fits.turn hturned halive⟩

theorem Orderly.next {m : Option Move} (h : Orderly halting s) (hnext : s.Next m s') :
    Orderly (s.haltsAfter halting m) s' := by
  cases hnext with
  | move hm => exact h.move hm
  | teletype f => exact ⟨h.reachable.onTeletype f, h.fits.onMachine rfl⟩
  | wait interval => exact ⟨h.reachable.advance interval, h.fits.onMachine rfl⟩

theorem orderly_of_history {setup : Setup} {table : PinTable} {keyboard : Keyboard} {sink : Sink}
    {clock : Clock} (h : History (powerUp setup table keyboard sink clock) halting s) :
    Orderly halting s := by
  induction h with
  | start => exact orderly_powerUp setup table keyboard sink clock
  | next _ hnext ih => exact ih.next hnext

/-! ## Who can still step the machine -/

/-- What may come of a scene. -/
def Scene.Leads : Scene → Scene → Prop := Relation.ReflTransGen fun s s' => ∃ m, s.Next m s'

/-- Worker `i`, which has been spawned, can still come to step the machine: at some time it will be
its turn, and the machine will be running. -/
def Scene.CanStep (i : Nat) (s : Scene) : Prop :=
  i < s.runner.workers.length ∧
    ∃ s', s.Leads s' ∧ s'.runner.workers[i]? = some .working ∧ s'.runner.machine.running = true

theorem Fits.owned {todo : List ClientAction} (h : Fits r halting todo) : r.Owned := by
  cases h with
  | settled _ hr => exact hr.owned
  | halt _ hr => exact hr.owned
  | parting _ hr => exact hr.owned
  | still _ hr => exact hr.deserted.owned
  | join hr => exact hr.deserted.owned
  | spawn hr => exact hr.deserted.owned

/-- An action of the client leaves the workers alone, unless it spawns one. -/
theorem workers_act {a : ClientAction} {more : List ClientAction}
    (h : r.act a = some (.ok (more, r'))) : r'.workers = r.workers ∨ r' = r.spawn := by
  cases a with
  | press keys =>
    obtain ⟨start, m, -, -, rfl⟩ := act_press h
    exact .inl rfl
  | stepOnce =>
    obtain ⟨o, m, -, -, rfl⟩ := act_stepOnce h
    exact .inl rfl
  | join =>
    obtain ⟨-, -, rfl⟩ := act_join h
    exact .inl rfl
  | spawn =>
    cases h
    exact .inr rfl
  | accept v =>
    cases h
    exact .inl rfl
  | halt =>
    cases h
    exact .inl rfl
  | requestInterrupt =>
    cases h
    exact .inl rfl
  | look =>
    cases h
    exact .inl rfl

/-- A worker that has left stays away. -/
theorem Orderly.gone_move {m : Move} (h : Orderly halting s) (hm : s.move? m = some (.ok s'))
    (hlt : i < s.runner.workers.length) (hgone : s.runner.isAlive i = false) :
    i < s'.runner.workers.length ∧ s'.runner.isAlive i = false := by
  cases m with
  | call c =>
    obtain ⟨-, rfl⟩ := move_call hm
    exact ⟨hlt, hgone⟩
  | client =>
    obtain ⟨a, rest, more, r, -, hact, rfl⟩ := move_client hm
    rcases workers_act hact with hsame | rfl
    · unfold isAlive at hgone ⊢
      dsimp only
      rw [hsame]
      exact ⟨hlt, hgone⟩
    · refine ⟨?_, ?_⟩
      · show i < (s.runner.workers ++ [WorkerPhase.spawned]).length
        rw [List.length_append]
        omega
      · rw [isAlive_spawn, if_neg (by omega)]
        exact hgone
  | worker j =>
    obtain ⟨halive, r, hturn, rfl⟩ := move_worker hm
    have hturned := turned h.reachable.sound halive hturn
    have hne : i ≠ j := by
      rintro rfl
      rw [hgone] at halive
      cases halive
    exact ⟨hturned.length ▸ hlt, (hturned.others i hne).trans hgone⟩

theorem Orderly.gone {m : Option Move} (h : Orderly halting s) (hnext : s.Next m s')
    (hlt : i < s.runner.workers.length) (hgone : s.runner.isAlive i = false) :
    i < s'.runner.workers.length ∧ s'.runner.isAlive i = false := by
  cases hnext with
  | move hm => exact h.gone_move hm hlt hgone
  | teletype f => exact ⟨hlt, hgone⟩
  | wait interval => exact ⟨hlt, hgone⟩

/-- Only a worker that has not left can still step the machine. -/
theorem Orderly.alive_of_canStep (h : Orderly halting s) (hcan : s.CanStep i) :
    s.runner.isAlive i = true := by
  obtain ⟨hlt, t, hleads, hworking, -⟩ := hcan
  cases hgone : s.runner.isAlive i with
  | true => rfl
  | false =>
    induction hleads using Relation.ReflTransGen.head_induction_on generalizing halting with
    | refl =>
      rw [isAlive_iff.mpr (.inr hworking)] at hgone
      cases hgone
    | head hnext _ ih =>
      obtain ⟨m, hnext⟩ := hnext
      obtain ⟨hlt', hgone'⟩ := h.gone hnext hlt hgone
      exact ih (h.next hnext) hlt' hgone'

/-- While the machine is running, such a worker can. -/
theorem canStep_of_alive (halive : s.runner.isAlive i = true)
    (hrun : s.runner.machine.running = true) : s.CanStep i := by
  have hlt := lt_of_isAlive halive
  rcases isAlive_iff.mp halive with hspawned | hworking
  · -- it begins first
    have hmove : s.move? (.worker i) =
        some (.ok { s with runner := s.runner.enter i .working .workerStarted }) := by
      unfold Scene.move?
      dsimp only
      rw [if_pos halive, turn_of_spawned hspawned]
    refine ⟨hlt, _, .single ⟨_, .move hmove⟩, ?_, hrun⟩
    show (s.runner.workers.set i .working)[i]? = some .working
    rw [List.getElem?_set_self hlt]
  · exact ⟨hlt, s, .refl, hworking, hrun⟩

/-! ## Stopped machines -/

/-- What a scene comes to as long as neither START nor CONTINUE is pressed. -/
inductive Scene.Quiet (s : Scene) : Scene → Prop
  | refl : Quiet s s
  | next {t u : Scene} {m : Option Move} : Quiet s t → t.Next m u →
    (∀ keys rest, m = some .client → t.todo = .press keys :: rest →
      keys.start = false ∧ keys.continueKey = false) → Quiet s u

/-- A machine that is still stays so. -/
theorem Still.move {m : Move} (h : Orderly halting s) (hr : s.runner.Still)
    (hm : s.move? m = some (.ok s'))
    (hkeys : ∀ keys rest, m = .client → s.todo = .press keys :: rest →
      keys.start = false ∧ keys.continueKey = false) : s'.runner.Still := by
  cases m with
  | call c =>
    obtain ⟨-, rfl⟩ := move_call hm
    exact hr
  | worker i =>
    obtain ⟨halive, -⟩ := move_worker hm
    exact absurd halive hr.deserted.not_alive
  | client =>
    obtain ⟨a, rest, more, r, htodo, hact, rfl⟩ := move_client hm
    cases a with
    | press keys =>
      obtain ⟨start, m, hk, -, rfl⟩ := act_press hact
      obtain ⟨hrun, hstart⟩ := Machine.running_of_pressKeys h.reachable.sound hr.stopped hk
      obtain ⟨hup, hup'⟩ := hkeys keys rest rfl htodo
      rw [hup, hup'] at hstart
      have hstopped : start = false := by
        rw [← Bool.not_eq_true]
        exact fun hs => (hstart hs).elim nofun nofun
      exact ⟨hr.deserted, hrun.trans hstopped⟩
    | stepOnce =>
      obtain ⟨o, m, hs, -, rfl⟩ := act_stepOnce hact
      exact ⟨hr.deserted, Machine.running_of_step hr.stopped hs⟩
    | join =>
      obtain ⟨-, -, rfl⟩ := act_join hact
      exact ⟨hr.deserted, hr.stopped⟩
    | spawn =>
      -- a worker is spawned for a running machine only
      have hfits := h.fits
      rw [htodo] at hfits
      cases hfits with
      | settled hsimple _ => cases hsimple
      | still hfinal _ => cases hfinal
      | spawn hpoised =>
        have hrun := hpoised.running
        rw [hr.stopped] at hrun
        cases hrun
    | accept v =>
      cases hact
      have hrun : (s.runner.accept v).2.machine.running =
          (s.runner.machine.running && !(s.runner.accept v).1.stopRequested) :=
        (Machine.acceptPins_same v _).1
      rw [hr.stopped, Bool.false_and] at hrun
      exact ⟨hr.deserted, hrun⟩
    | halt =>
      cases hact
      exact ⟨hr.deserted, s.runner.machine.running_stop⟩
    | requestInterrupt =>
      cases hact
      exact ⟨hr.deserted, hr.stopped⟩
    | look =>
      cases hact
      exact hr

theorem Still.next {m : Option Move} (h : Orderly halting s) (hr : s.runner.Still)
    (hnext : s.Next m s')
    (hkeys : ∀ keys rest, m = some .client → s.todo = .press keys :: rest →
      keys.start = false ∧ keys.continueKey = false) : s'.runner.Still := by
  cases hnext with
  | move hm => exact hr.move h hm fun keys rest hclient => hkeys keys rest (congrArg some hclient)
  | teletype f => exact ⟨hr.deserted, hr.stopped⟩
  | wait interval => exact ⟨hr.deserted, hr.stopped⟩

theorem Still.quiet (h : Orderly halting s) (hr : s.runner.Still) (hquiet : s.Quiet t) :
    (∃ after, Orderly after t) ∧ t.runner.Still := by
  induction hquiet with
  | refl => exact ⟨⟨halting, h⟩, hr⟩
  | next _ hnext hkeys ih =>
    obtain ⟨⟨after, ht⟩, hstill⟩ := ih
    exact ⟨⟨_, ht.next hnext⟩, hstill.next ht hnext hkeys⟩

theorem move_worker_of_deserted (hr : s.runner.Deserted) : s.move? (.worker i) = none := by
  unfold Scene.move?
  dsimp only
  rw [hr i]
  rfl

section Moves

variable {start : Runner} {a : ClientAction} {more rest : List ClientAction}

theorem History.client (h : History start halting ⟨r, a :: rest⟩)
    (hact : r.act a = some (.ok (more, r'))) :
    History start (haltsAfter halting r a) ⟨r', more ++ rest⟩ := by
  refine h.next (.move (m := .client) ?_)
  unfold Scene.move?
  dsimp only
  rw [hact]

theorem History.worker {todo : List ClientAction} (h : History start halting ⟨r, todo⟩)
    (hi : r.isAlive i = true) (hturn : r.turn i = .ok r') : History start halting ⟨r', todo⟩ := by
  refine h.next (.move (m := .worker i) ?_)
  unfold Scene.move?
  dsimp only
  rw [if_pos hi, hturn]

theorem History.call (h : History start halting ⟨r, []⟩) (c : Call) :
    History start c.halts ⟨r, c.actions⟩ :=
  h.next (.move (m := .call c) rfl)

end Moves

/-- A machine may be started with CONTINUE, and stopped again by a call. -/
theorem exists_history_stopped (t : PinTable) :
    ∃ r r' : Runner, r.machine.running = true ∧
      History (powerUp .standard t .unconnected .unconnected ⟨0, 1⟩) false ⟨r, []⟩ ∧
      History (powerUp .standard t .unconnected .unconnected ⟨0, 1⟩) true ⟨r', []⟩ := by
  let built := powerUp .standard t .unconnected .unconnected ⟨0, 1⟩
  let v := t.spread .continueKey 1 (.off t.pinCount)
  obtain ⟨hkeys, hswitches⟩ :=
    Panel.pressed_alone (show Signal.continueKey.acts = true from rfl) nofun t
  let accepted := { built with machine := built.machine.withPins v }
  have haccept : built.accept v = (⟨.only .continueKey, false⟩, accepted) := by
    have hpins : built.machine.acceptPins v = _ := Machine.acceptPins_eq hkeys rfl
    unfold accept
    rw [hpins]
  have hkeysLeft : built.act (.accept v) =
      some (.ok ([.press (.only .continueKey)], accepted)) := by
    unfold act
    dsimp only
    rw [haccept]
    rfl
  let running : Machine :=
    { { accepted.machine with halted := false }.report .running with running := true }
  let started := { accepted with machine := running }
  have hpress : accepted.press (.only .continueKey) = .ok (true, started) := by
    have hcontinue : accepted.machine.pressKeys (.only .continueKey) = .ok (true, running) :=
      Machine.pressKeys_continue rfl (congrArg Switches.step hswitches)
    unfold press
    rw [hcontinue]
  have hworkerLeft : accepted.act (.press (.only .continueKey)) =
      some (.ok ([.join, .spawn], started)) := by
    unfold act
    dsimp only
    rw [hpress]
    rfl
  have hwritten : History built false ⟨started.dismiss.spawn, []⟩ := by
    have hcall : History built false ⟨built, [.accept v]⟩ := History.start.call (.writePins v)
    have haccepted : History built false ⟨accepted, [.press (.only .continueKey)]⟩ := by
      have hstays : haltsAfter false built (.accept v) = false :=
        congrArg (fun result => result.1.stopRequested) haccept
      rw [← hstays]
      exact hcall.client hkeysLeft
    have hpressed : History built false ⟨started, [.join, .spawn]⟩ := by
      have hstays : haltsAfter false accepted (.press (.only .continueKey)) = false := by
        unfold haltsAfter
        dsimp only
        rw [hpress]
        rfl
      rw [← hstays]
      exact haccepted.client hworkerLeft
    have hjoined : History built false ⟨started.dismiss, [.spawn]⟩ := hpressed.client rfl
    exact hjoined.client rfl
  have hbegan := hwritten.worker (show isAlive 0 started.dismiss.spawn = true from rfl) rfl
  have hhalted := (hbegan.call .stop).client rfl
  have hleft := hhalted.worker (i := 0) rfl rfl
  exact ⟨_, _, rfl, hwritten, hleft.client rfl⟩

/-- Nobody steps a machine twice.  In every history of a newly built machine, whatever its client
calls and in whatever order the client and the workers move, at most one worker can still come to
step it.  Between two calls, one can if the machine is running.  After a call that has to leave the
machine stopped it is stopped, no worker can come to step it, and until START or CONTINUE is pressed
it stays stopped and no worker does anything. -/
theorem single_worker {setup : Setup} {table : PinTable} {keyboard : Keyboard} {sink : Sink}
    {clock : Clock} (h : History (powerUp setup table keyboard sink clock) halting s) :
    (∀ i j, s.CanStep i → s.CanStep j → i = j) ∧
      (s.todo = [] → s.runner.machine.running = true → ∃! i, s.CanStep i) ∧
      (s.todo = [] → halting = true →
        s.runner.machine.running = false ∧ (∀ i, ¬ s.CanStep i) ∧
          ∀ t, s.Quiet t →
            t.runner.machine.running = false ∧ ∀ i, t.move? (.worker i) = none) := by
  have horderly := orderly_of_history h
  have honly (i j : Nat) (hi : s.CanStep i) (hj : s.CanStep j) : i = j := by
    have hi' := horderly.fits.owned i (horderly.alive_of_canStep hi)
    have hj' := horderly.fits.owned j (horderly.alive_of_canStep hj)
    exact Option.some.inj (hi'.symm.trans hj')
  refine ⟨honly, ?_, ?_⟩
  · intro htodo hrun
    have hfits := horderly.fits
    rw [htodo] at hfits
    obtain ⟨i, hi⟩ := hfits.settled_of_nil.running.mpr hrun
    have hcan := canStep_of_alive hi hrun
    exact ⟨i, hcan, fun j hj => honly j i hj hcan⟩
  · intro htodo hhalting
    have hfits := horderly.fits
    rw [htodo, hhalting] at hfits
    have hstill := hfits.still_of_nil
    refine ⟨hstill.stopped, ?_, ?_⟩
    · intro i hcan
      exact hstill.deserted.not_alive (horderly.alive_of_canStep hcan)
    · intro t hquiet
      obtain ⟨-, ht⟩ := hstill.quiet horderly hquiet
      exact ⟨ht.stopped, fun i => move_worker_of_deserted ht.deserted⟩

/-- A machine that has been started, and stopped again. -/
theorem single_worker_stopped :
    let built := powerUp .standard .standard .unconnected .unconnected ⟨0, 1⟩
    ∃ r r' : Runner,
      History built false ⟨r, []⟩ ∧ r.machine.running = true ∧ (∃! i, Scene.CanStep i ⟨r, []⟩) ∧
        History built true ⟨r', []⟩ ∧ r'.machine.running = false ∧
        ∀ i, ¬ Scene.CanStep i ⟨r', []⟩ := by
  intro built
  obtain ⟨r, r', hrun, hstarted, hstopped⟩ := exists_history_stopped .standard
  obtain ⟨-, hone, -⟩ := single_worker hstarted
  obtain ⟨-, -, hnone⟩ := single_worker hstopped
  obtain ⟨hrun', hcan, -⟩ := hnone rfl rfl
  exact ⟨r, r', hstarted, hrun, hone rfl hrun, hstopped, hrun', hcan⟩

end Pdp8.Runner
