import Pdp8.Proofs.Memory
import Pdp8.Proofs.Operations
import Pdp8.Proofs.PanelPins

/-!
# Pdp8.Proofs.Examining — what has been deposited can be examined

A key is struck by some settings, a write with the key down and a write with it up again, and does
what it does once (`strike_eq`).  LOAD ADDRESS refers to the instruction field, and aims DEPOSIT and
EXAMINE at the data field; either of these goes on to the next location.  So words that have been
deposited one after another come up in the lights when the same locations are examined, and nothing
but DEPOSIT has changed core.
-/

namespace Pdp8

open Panel

/-- A key is struck: some settings without the keys, a write with the key down, and one with it up
again. -/
structure Stroke where
  settings : List PinVector
  down : PinVector
  up : PinVector

/-- A stroke of a given key. -/
structure Stroke.Presses (t : PinTable) (key : Signal) (s : Stroke) : Prop where
  settings : ∀ v ∈ s.settings, Released t v
  down : Held t key s.down
  up : Released t s.up

/-- The switches as they are while the key is down. -/
def Stroke.switches (t : PinTable) (s : Stroke) : Switches := Panel.switches t s.down

/-- A key is struck on some pins. -/
def Stroke.byHand (t : PinTable) (key : Signal) (v : PinVector) : Stroke :=
  ⟨[v], t.spread key 1 v, v⟩

theorem Stroke.presses_byHand {t : PinTable} {key : Signal} {v : PinVector} (hv : Released t v) :
    (byHand t key v).Presses t key where
  settings _ h := List.mem_singleton.mp h ▸ hv
  down := held_spread hv
  up := hv

namespace Machine

/-- The machine while a key is down, and when it has been let go of. -/
structure Struck where
  pressed : Machine
  released : Machine

/-- Strike a key. -/
def strike (s : Stroke) (m : Machine) : Except Fault Struck :=
  match m.handleAll ((s.settings ++ [s.down]).map fun v => .action (.write v)) with
  | .error f => .error f
  | .ok pressed =>
    match pressed.handle (.action (.write s.up)) with
    | .error f => .error f
    | .ok released => .ok ⟨pressed, released⟩

/-- Strike keys one after another. -/
def strikeAll : List Stroke → Machine → Except Fault (List Struck × Machine)
  | [], m => .ok ([], m)
  | s :: strokes, m =>
    match m.strike s with
    | .error f => .error f
    | .ok struck =>
      match struck.released.strikeAll strokes with
      | .error f => .error f
      | .ok (rest, m) => .ok (struck :: rest, m)

variable {m : Machine} {t : PinTable} {v : PinVector} {vs : List PinVector} {key : Signal}
  {s : Stroke} {n : Nat} {place : Address} {memory : Address → Word} {w : Word}

/-- A write without the keys sets the switches. -/
theorem handle_released (hrun : m.running = false) (hv : Released m.panel.table v) :
    m.handle (.action (.write v)) = .ok (m.withPins v) := by
  have hpress : (m.withPins v).pressKeys (Panel.keys m.panel.table m.panel.written v) =
      .ok (false, m.withPins v) := by
    rw [keys_of_released hv]
    exact pressKeys_none hrun
  exact perform_write_of_stopped hrun hpress

/-- Of some settings before a write nothing is left but the keys that are up. -/
theorem handleAll_settings (hrun : m.running = false) (hup : Released m.panel.table m.panel.written)
    (hvs : ∀ v ∈ vs, Released m.panel.table v) (hv : Held m.panel.table key v) {m' : Machine}
    (hpress : (m.withPins v).pressKeys (.only key) = .ok (false, m')) :
    m.handleAll ((vs ++ [v]).map fun v => .action (.write v)) = .ok m' := by
  induction vs generalizing m with
  | nil =>
    rw [← keys_of_held hup hv] at hpress
    exact handleAll_cons_eq_ok_iff.mpr ⟨m', perform_write_of_stopped hrun hpress, rfl⟩
  | cons v₀ vs ih =>
    obtain ⟨hv₀, hrest⟩ := List.forall_mem_cons.mp hvs
    refine handleAll_cons_eq_ok_iff.mpr ⟨m.withPins v₀, handle_released hrun hv₀, ?_⟩
    exact ih (m := m.withPins v₀) hrun hv₀ hrest hv hpress

/-- A key that is struck does what it does to a machine that is stopped, with the switches as they
are then. -/
theorem strike_eq {f : Machine → Machine} (hrun : m.running = false)
    (hup : Released m.panel.table m.panel.written) (hs : s.Presses m.panel.table key)
    (hf : ∀ m : Machine, m.running = false → m.pressKeys (.only key) = .ok (false, f m))
    (hpanel : ∀ m, (f m).panel = m.panel) (hstays : ∀ m, (f m).running = m.running) :
    m.strike s =
      .ok ⟨f (m.withPins s.down), (f (m.withPins s.down)).withPins s.up⟩ := by
  have hpressed := handleAll_settings hrun hup hs.settings hs.down (hf (m.withPins s.down) hrun)
  have hreleased : (f (m.withPins s.down)).handle (.action (.write s.up)) =
      .ok ((f (m.withPins s.down)).withPins s.up) := by
    refine handle_released ((hstays _).trans hrun) ?_
    rw [hpanel]
    exact hs.up
  unfold strike
  rw [hpressed]
  dsimp only
  rw [hreleased]

theorem pressKeys_examine (hrun : m.running = false) :
    m.pressKeys (.only .examine) = .ok (false, m.pressExamine) := by
  unfold pressKeys
  rw [hrun]
  rfl

/-! ## One key -/

/-- A machine that is stopped in the idle state, with as many fields and such a memory, and aimed at
a place. -/
structure Stands (t : PinTable) (n : Nat) (place : Address) (memory : Address → Word)
    (m : Machine) : Prop where
  table : m.panel.table = t
  running : m.running = false
  cycle : m.processor.cycle = .idle
  fieldCount : m.processor.core.fieldCount = n
  memory : m.processor.core.peek = memory
  dataField : m.processor.fields.dataField = place.field
  pc : m.processor.regs.pc = place.location

theorem Stands.withPins (h : m.Stands t n place memory) (v : PinVector) :
    (m.withPins v).Stands t n place memory :=
  ⟨h.table, h.running, h.cycle, h.fieldCount, h.memory, h.dataField, h.pc⟩

/-- A machine that stands so both while the key is down and afterwards. -/
structure Struck.Stands (t : PinTable) (n : Nat) (place : Address) (memory : Address → Word)
    (r : Struck) : Prop where
  pressed : r.pressed.Stands t n place memory
  released : r.released.Stands t n place memory
  up : Released t r.released.panel.written

/-- The lights for MA and MB, both while the key is down and afterwards. -/
structure Struck.Shows (t : PinTable) (memoryAddress memoryBuffer : Nat) (r : Struck) : Prop where
  pressed : t.gather .memoryAddress r.pressed.readPins = memoryAddress ∧
    t.gather .memoryBuffer r.pressed.readPins = memoryBuffer
  released : t.gather .memoryAddress r.released.readPins = memoryAddress ∧
    t.gather .memoryBuffer r.released.readPins = memoryBuffer

/-- The place after a place, in the same field. -/
def next (a : Address) : Address := ⟨a.field, a.location + 1⟩

/-- Memory of some fields with words deposited from a place on. -/
def stored (n : Nat) (place : Address) (words : List Word) (memory : Address → Word) :
    Address → Word :=
  if place.field.toNat < n then storeFrom memory place words else memory

theorem stored_nil : stored n place [] memory = memory := by
  unfold stored
  split_ifs <;> rfl

theorem stored_cons (words : List Word) :
    stored n place (w :: words) memory =
      stored n (next place) words (stored n place [w] memory) := by
  unfold stored next
  dsimp only
  split_ifs <;> rfl

/-- LOAD ADDRESS aims the machine by the switches, and leaves memory alone. -/
theorem strike_load (htable : m.panel.table = t) (hrun : m.running = false)
    (hup : Released t m.panel.written) (hs : s.Presses t .loadAddress) :
    ∃ r, m.strike s = .ok r ∧
      r.Stands t m.processor.core.fieldCount
        ⟨switchedField (s.switches t).dataField, (s.switches t).switchRegister⟩
        m.processor.core.peek := by
  subst htable
  have hstands : (m.withPins s.down).pressLoadAddress.Stands m.panel.table
      m.processor.core.fieldCount
      ⟨switchedField (s.switches m.panel.table).dataField,
        (s.switches m.panel.table).switchRegister⟩
      m.processor.core.peek :=
    ⟨rfl, hrun, rfl, rfl, Core.peek_of_read _ _, rfl, rfl⟩
  exact ⟨_, strike_eq hrun hup hs (fun _ => pressKeys_loadAddress) (fun _ => rfl) fun _ => rfl,
    hstands, hstands.withPins s.up, hs.up⟩

/-- DEPOSIT stores the switch register, if the field is fitted, and goes on to the next place. -/
theorem strike_deposit (h : m.Stands t n place memory) (hup : Released t m.panel.written)
    (hs : s.Presses t .deposit) :
    ∃ r, m.strike s = .ok r ∧
      r.Stands t n (next place) (stored n place [(s.switches t).switchRegister] memory) := by
  have htable := h.table
  subst htable
  have hcore : (m.withPins s.down).pressDeposit.processor.core =
      m.processor.core.write place (s.switches m.panel.table).switchRegister := by
    have haimed : (⟨m.processor.fields.dataField, m.processor.regs.pc⟩ : Address) = place := by
      rw [h.dataField, h.pc]
    rw [← haimed]
    rfl
  have hfitted : m.processor.core.isFitted place.field = decide (place.field.toNat < n) := by
    unfold Core.isFitted
    rw [h.fieldCount]
  have hstands : (m.withPins s.down).pressDeposit.Stands m.panel.table n (next place)
      (stored n place [(s.switches m.panel.table).switchRegister] memory) := by
    refine ⟨rfl, h.running, rfl, ?_, ?_, h.dataField, congrArg Word.successor h.pc⟩
    · rw [hcore, Core.fieldCount_write, h.fieldCount]
    · rw [hcore]
      unfold stored
      split_ifs with hn
      · rw [Core.peek_write_of_fitted (hfitted.trans (decide_eq_true hn)), h.memory]
        rfl
      · rw [Core.peek_write_of_not_fitted (hfitted.trans (decide_eq_false hn)), h.memory]
  exact ⟨_, strike_eq h.running hup hs (fun _ => pressKeys_deposit) (fun _ => rfl) fun _ => rfl,
    hstands, hstands.withPins s.up, hs.up⟩

/-- The lights show the latest memory cycle. -/
theorem lights_of_last (htable : m.panel.table = t) (hlast : m.processor.core.last = ⟨place, w⟩) :
    t.gather .memoryAddress m.readPins = place.location.toNat ∧
      t.gather .memoryBuffer m.readPins = w.toNat := by
  have hlight {s : Signal} (hs : s.isInput = false) := m.panel.gather_render_light m.lights hs
  rw [htable] at hlight
  refine ⟨(hlight rfl).trans ?_, (hlight rfl).trans ?_⟩
  · exact congrArg (fun r : Reference => r.address.location.toNat) hlast
  · exact congrArg (fun r : Reference => r.word.toNat) hlast

/-- EXAMINE shows what is there, and goes on to the next place. -/
theorem strike_examine (h : m.Stands t n place memory) (hup : Released t m.panel.written)
    (hs : s.Presses t .examine) :
    ∃ r, m.strike s = .ok r ∧ r.Stands t n (next place) memory ∧
      r.Shows t place.location.toNat (memory place).toNat := by
  have htable := h.table
  subst htable
  have hcore : (m.withPins s.down).pressExamine.processor.core = m.processor.core.read place := by
    have haimed : (⟨m.processor.fields.dataField, m.processor.regs.pc⟩ : Address) = place := by
      rw [h.dataField, h.pc]
    rw [← haimed]
    rfl
  have hstands : (m.withPins s.down).pressExamine.Stands m.panel.table n (next place) memory := by
    refine ⟨rfl, h.running, rfl, ?_, ?_, h.dataField, congrArg Word.successor h.pc⟩
    · rw [hcore, Core.fieldCount_read, h.fieldCount]
    · rw [hcore, Core.peek_of_read, h.memory]
  have hlast : (m.withPins s.down).pressExamine.processor.core.last = ⟨place, memory place⟩ := by
    rw [hcore, ← h.memory]
    rfl
  exact ⟨_, strike_eq h.running hup hs (fun _ => pressKeys_examine) (fun _ => rfl) fun _ => rfl,
    ⟨hstands, hstands.withPins s.up, hs.up⟩,
    lights_of_last hstands.table hlast,
    lights_of_last (hstands.withPins s.up).table hlast⟩

/-! ## One key after another -/

section Runs

variable {strokes : List Stroke} {words : List Word}

theorem strikeAll_cons {r : Struck} {rs : List Struck} {m' : Machine} (hr : m.strike s = .ok r)
    (hrs : r.released.strikeAll strokes = .ok (rs, m')) :
    m.strikeAll (s :: strokes) = .ok (r :: rs, m') := by
  unfold strikeAll
  rw [hr]
  dsimp only
  rw [hrs]

/-- Words are deposited at the places that follow one another. -/
theorem strikeAll_deposits (h : m.Stands t n place memory) (hup : Released t m.panel.written)
    (hs : List.Forall₂ (fun s w => s.Presses t .deposit ∧ (s.switches t).switchRegister = w)
      strokes words) :
    ∃ rs m', m.strikeAll strokes = .ok (rs, m') ∧ Released t m'.panel.written ∧
      m'.Stands t n (place.plus words.length) (stored n place words memory) ∧
      rs.length = words.length ∧
      ∀ i (r : Struck), rs[i]? = some r →
        r.Stands t n (place.plus (i + 1)) (stored n place (words.take (i + 1)) memory) := by
  induction hs generalizing m place memory with
  | nil =>
    refine ⟨[], m, rfl, hup, ?_, rfl, ?_⟩
    · rw [stored_nil, List.length_nil, Address.plus_zero]
      exact h
    · intro i r hi
      rw [List.getElem?_nil] at hi
      cases hi
  | @cons s w strokes words hsw _ ih =>
    obtain ⟨hs, rfl⟩ := hsw
    obtain ⟨r, hr, hstands⟩ := strike_deposit h hup hs
    obtain ⟨rs, m', hrs, hup', hm', hlength, hall⟩ := ih hstands.released hstands.up
    refine ⟨r :: rs, m', strikeAll_cons hr hrs, hup', ?_, congrArg Nat.succ hlength, ?_⟩
    · rw [stored_cons, List.length_cons, Address.plus_succ]
      exact hm'
    · intro i r' hi
      rw [List.take_succ_cons, stored_cons, Address.plus_succ]
      cases i with
      | zero =>
        rw [List.getElem?_cons_zero] at hi
        obtain rfl := Option.some.inj hi
        rw [List.take_zero, stored_nil, Address.plus_zero]
        exact hstands
      | succ i => exact hall i r' hi

/-- What is at the places that follow one another is shown. -/
theorem strikeAll_examines (h : m.Stands t n place memory) (hup : Released t m.panel.written)
    (hs : ∀ s ∈ strokes, s.Presses t .examine) :
    ∃ rs m', m.strikeAll strokes = .ok (rs, m') ∧
      m'.Stands t n (place.plus strokes.length) memory ∧ rs.length = strokes.length ∧
      ∀ i (r : Struck), rs[i]? = some r → r.Stands t n (place.plus (i + 1)) memory ∧
        r.Shows t (place.plus i).location.toNat (memory (place.plus i)).toNat := by
  induction strokes generalizing m place with
  | nil =>
    refine ⟨[], m, rfl, ?_, rfl, ?_⟩
    · rw [List.length_nil, Address.plus_zero]
      exact h
    · intro i r hi
      rw [List.getElem?_nil] at hi
      cases hi
  | cons s strokes ih =>
    obtain ⟨hs, hrest⟩ := List.forall_mem_cons.mp hs
    obtain ⟨r, hr, hstands, hshows⟩ := strike_examine h hup hs
    obtain ⟨rs, m', hrs, hm', hlength, hall⟩ := ih hstands.released hstands.up hrest
    refine ⟨r :: rs, m', strikeAll_cons hr hrs, ?_, congrArg Nat.succ hlength, ?_⟩
    · rw [List.length_cons, Address.plus_succ]
      exact hm'
    · intro i r' hi
      cases i with
      | zero =>
        rw [List.getElem?_cons_zero] at hi
        obtain rfl := Option.some.inj hi
        rw [Address.plus_succ, Address.plus_zero, Address.plus_zero]
        exact ⟨hstands, hshows⟩
      | succ i =>
        rw [Address.plus_succ place (i + 1), Address.plus_succ place i]
        exact hall i r' hi

end Runs

/-! ## Depositing and examining -/

/-- Words are deposited from a location on and examined again, on a panel with a given wiring.  The
INST FIELD switch may stand either way. -/
structure Trial (t : PinTable) where
  start : Word
  dataField : Bool
  words : List Word
  load : Stroke
  deposits : List Stroke
  reload : Stroke
  examines : List Stroke
  fits : words.length ≤ fieldSize
  loads : load.Presses t .loadAddress ∧ (load.switches t).switchRegister = start ∧
    (load.switches t).dataField = dataField
  sets : List.Forall₂ (fun s w => s.Presses t .deposit ∧ (s.switches t).switchRegister = w)
    deposits words
  reloads : reload.Presses t .loadAddress ∧ (reload.switches t).switchRegister = start ∧
    (reload.switches t).dataField = dataField
  shows : ∀ s ∈ examines, s.Presses t .examine
  count : examines.length = words.length

/-- Where the first word goes. -/
def Trial.first (trial : Trial t) : Address := ⟨switchedField trial.dataField, trial.start⟩

/-- The pins with the switches set. -/
def setPins (t : PinTable) (instField dataField : Bool) (w : Word) : PinVector :=
  t.spread .switchRegister w.toNat
    (t.spread .dataField dataField.toNat (t.spread .instField instField.toNat (.off t.pinCount)))

section ByHand

variable {instField dataField : Bool}

theorem released_setPins : Released t (setPins t instField dataField w) := by
  intro s hs
  have hne {s' : Signal} (hs' : s'.isKey = false) : s ≠ s' := by
    rintro rfl
    rw [hs] at hs'
    cases hs'
  unfold setPins
  rw [PinTable.gather_spread_of_ne (hne rfl), PinTable.gather_spread_of_ne (hne rfl),
    PinTable.gather_spread_of_ne (hne rfl), PinTable.gather_off]

theorem switches_byHand (hkey : key.isKey = true) :
    ((Stroke.byHand t key (setPins t instField dataField w)).switches t).switchRegister = w ∧
      ((Stroke.byHand t key (setPins t instField dataField w)).switches t).dataField =
        dataField := by
  have hne {s : Signal} (hs : s.isKey = false) : s ≠ key := by
    rintro rfl
    rw [hkey] at hs
    cases hs
  unfold Stroke.switches Stroke.byHand Panel.switches
  dsimp only
  rw [PinTable.gather_spread_of_ne (hne rfl), PinTable.gather_spread_of_ne (hne rfl)]
  unfold setPins
  rw [PinTable.gather_spread, PinTable.gather_spread_of_ne (show Signal.dataField ≠ _ by decide),
    PinTable.gather_spread]
  constructor
  · change BitVec.ofNat 12 (w.toNat % 2 ^ 12) = w
    rw [Nat.mod_eq_of_lt w.isLt, BitVec.ofNat_toNat, BitVec.setWidth_eq]
  · cases dataField <;> rfl

end ByHand

/-- Any words can be tried, with any setting of the switches. -/
def Trial.byHand (t : PinTable) (instField dataField : Bool) (start : Word) (words : List Word)
    (fits : words.length ≤ fieldSize) : Trial t where
  start := start
  dataField := dataField
  words := words
  load := .byHand t .loadAddress (setPins t instField dataField start)
  deposits := words.map fun w => .byHand t .deposit (setPins t instField dataField w)
  reload := .byHand t .loadAddress (setPins t instField dataField start)
  examines := words.map fun _ => .byHand t .examine (setPins t instField dataField start)
  fits := fits
  loads := ⟨Stroke.presses_byHand released_setPins, switches_byHand rfl⟩
  sets := by
    rw [List.forall₂_map_left_iff, List.forall₂_same]
    exact fun w _ => ⟨Stroke.presses_byHand released_setPins, (switches_byHand rfl).1⟩
  reloads := ⟨Stroke.presses_byHand released_setPins, switches_byHand rfl⟩
  shows s hs := by
    obtain ⟨_, -, rfl⟩ := List.mem_map.mp hs
    exact Stroke.presses_byHand released_setPins
  count := List.length_map _

theorem toNat_plus (a : Address) (i : Nat) :
    (a.plus i).location.toNat = (a.location.toNat + i) % fieldSize := by
  unfold Address.plus fieldSize
  rw [BitVec.toNat_add, BitVec.toNat_ofNat, Nat.add_mod_mod]

/-- What is examined is what has been deposited, and a field that is not fitted reads as zero. -/
theorem stored_plus {c : Core} {words : List Word} {i : Nat} (hfits : words.length ≤ fieldSize)
    (hi : words[i]? = some w) :
    stored c.fieldCount place words c.peek (place.plus i) =
      if c.isFitted place.field then w else 0 := by
  obtain ⟨hlt, rfl⟩ := List.getElem?_eq_some_iff.mp hi
  unfold stored Core.isFitted
  by_cases hn : place.field.toNat < c.fieldCount
  · rw [if_pos hn, if_pos (decide_eq_true hn)]
    exact storeFrom_plus hfits hlt
  · have hnot : ¬ decide (place.field.toNat < c.fieldCount) = true :=
      fun h => hn (of_decide_eq_true h)
    rw [if_neg hn, if_neg hnot]
    exact if_neg hnot

theorem stored_of_ne {words : List Word} {a : Address}
    (h : ∀ i < words.length, a ≠ place.plus i) : stored n place words memory a = memory a := by
  unfold stored
  split_ifs
  · exact storeFrom_of_ne h
  · rfl

/-- What comes of a trial on a machine, with the machines on which the keys have been struck. -/
structure Trial.Passes (trial : Trial t) (m : Machine) (loaded : Struck) (deposited : List Struck)
    (filled : Machine) (reloaded : Struck) (examined : List Struck) (finished : Machine) :
    Prop where
  load : m.strike trial.load = .ok loaded
  deposits : loaded.released.strikeAll trial.deposits = .ok (deposited, filled)
  reload : filled.strike trial.reload = .ok reloaded
  examines : reloaded.released.strikeAll trial.examines = .ok (examined, finished)
  /-- LOAD ADDRESS aims the machine, and changes no memory. -/
  loaded_stands : loaded.Stands t m.processor.core.fieldCount trial.first m.processor.core.peek
  /-- Each DEPOSIT stores one word more, if the field is fitted. -/
  deposited_stands : deposited.length = trial.words.length ∧
    ∀ i (r : Struck), deposited[i]? = some r →
      r.Stands t m.processor.core.fieldCount (trial.first.plus (i + 1))
        (stored m.processor.core.fieldCount trial.first (trial.words.take (i + 1))
          m.processor.core.peek)
  /-- The second LOAD ADDRESS changes no memory either. -/
  reloaded_stands : reloaded.Stands t m.processor.core.fieldCount trial.first
    filled.processor.core.peek
  /-- Nor does EXAMINE. -/
  examined_stands : examined.length = trial.words.length ∧
    ∀ i (r : Struck), examined[i]? = some r →
      r.Stands t m.processor.core.fieldCount (trial.first.plus (i + 1)) filled.processor.core.peek
  /-- The lights show the places that follow one another, and what has been deposited there; a field
  that is not fitted reads as zero. -/
  examined_shows : ∀ i (r : Struck) (w : Word), examined[i]? = some r → trial.words[i]? = some w →
    r.Shows t ((trial.start.toNat + i) % fieldSize)
      (if m.processor.core.isFitted trial.first.field then w.toNat else 0)
  /-- Memory has the words where they were deposited, and is otherwise as it was. -/
  memory : finished.processor.core.peek = filled.processor.core.peek ∧
    (m.processor.core.isFitted trial.first.field = true →
      ∀ i w, trial.words[i]? = some w → filled.processor.core.peek (trial.first.plus i) = w) ∧
    (m.processor.core.isFitted trial.first.field = false →
      filled.processor.core.peek = m.processor.core.peek) ∧
    ∀ a, (∀ i < trial.words.length, a ≠ trial.first.plus i) →
      filled.processor.core.peek a = m.processor.core.peek a
  /-- PC has gone past the words both times. -/
  pc : filled.processor.regs.pc.toNat = (trial.start.toNat + trial.words.length) % fieldSize ∧
    finished.processor.regs.pc.toNat = (trial.start.toNat + trial.words.length) % fieldSize

/-- On a machine that is stopped, with its keys up, words that are deposited can be examined. -/
theorem deposit_then_examine (trial : Trial m.panel.table) (hrun : m.running = false)
    (hup : Released m.panel.table m.panel.written) :
    ∃ loaded deposited filled reloaded examined finished,
      trial.Passes m loaded deposited filled reloaded examined finished := by
  obtain ⟨hload, hstart, hfield⟩ := trial.loads
  obtain ⟨loaded, hloaded, hstands⟩ := strike_load rfl hrun hup hload
  rw [hstart, hfield] at hstands
  change loaded.Stands _ _ trial.first _ at hstands
  obtain ⟨deposited, filled, hdeposited, hup', hfilled, hlength, hdeposits⟩ :=
    strikeAll_deposits hstands.released hstands.up trial.sets
  obtain ⟨hreload, hstart', hfield'⟩ := trial.reloads
  obtain ⟨reloaded, hreloaded, hstands'⟩ :=
    strike_load hfilled.table hfilled.running hup' hreload
  rw [hstart', hfield', hfilled.fieldCount] at hstands'
  change reloaded.Stands _ _ trial.first _ at hstands'
  obtain ⟨examined, finished, hexamined, hfinished, hcount, hexamines⟩ :=
    strikeAll_examines hstands'.released hstands'.up trial.shows
  rw [trial.count] at hfinished hcount
  have hpeek := hfilled.memory
  refine ⟨loaded, deposited, filled, reloaded, examined, finished, ?_⟩
  constructor
  · exact hloaded
  · exact hdeposited
  · exact hreloaded
  · exact hexamined
  · exact hstands
  · exact ⟨hlength, hdeposits⟩
  · exact hstands'
  · exact ⟨hcount, fun i r hi => (hexamines i r hi).1⟩
  · intro i r w hi hw
    have hshows := (hexamines i r hi).2
    rw [hpeek, stored_plus trial.fits hw, toNat_plus, apply_ite BitVec.toNat] at hshows
    exact hshows
  · refine ⟨hfinished.memory, ?_, ?_, ?_⟩
    · intro hfitted i w hw
      rw [hpeek, stored_plus trial.fits hw]
      exact if_pos hfitted
    · intro hfitted
      rw [hpeek]
      exact if_neg (of_decide_eq_false hfitted)
    · intro a ha
      rw [hpeek]
      exact stored_of_ne ha
  · rw [hfilled.pc, hfinished.pc, toNat_plus]
    exact ⟨rfl, rfl⟩

/-- Two words, the second of which goes into location 0. -/
theorem deposit_then_examine_wrapping :
    let m := powerUp ⟨1, 10, false⟩ .standard (.powerUp 10 .unconnected .unconnected) ⟨0, 1⟩
    let trial := Trial.byHand m.panel.table true false 0o7777 [0o7402, 0o1234] (by decide)
    ∃ loaded deposited filled reloaded examined finished,
      m.running = false ∧ Released m.panel.table m.panel.written ∧
        trial.Passes m loaded deposited filled reloaded examined finished ∧
        filled.processor.core.peek .zero = 0o1234 := by
  intro m trial
  have hrun : m.running = false := rfl
  have hup : Released m.panel.table m.panel.written := fun s _ => PinTable.gather_off _ s _
  obtain ⟨loaded, deposited, filled, reloaded, examined, finished, hpasses⟩ :=
    deposit_then_examine trial hrun hup
  have hfitted : m.processor.core.isFitted trial.first.field = true := rfl
  have hplace : Address.plus ⟨switchedField false, 0o7777⟩ 1 = .zero := by decide
  have hstored := hpasses.memory.2.1 hfitted 1 0o1234 rfl
  rw [← hplace]
  exact ⟨loaded, deposited, filled, reloaded, examined, finished, hrun, hup, hpasses, hstored⟩

end Machine

end Pdp8
