import Mathlib.Tactic.SplitIfs
import Pdp8.Proofs.TeletypeHistory

/-!
# Pdp8.Proofs.KeyboardTransport — what becomes of the characters that are typed

The bytes that are sent along a queue come off it in order, each once, at the pace of the teletype,
and each stays in the buffer until the next one comes.  A poll reads whenever there is a byte and it
is time, and whether the sender is still there makes no difference.  `keyboard_cases` says what a
deed can do to the keyboard.
-/

namespace Pdp8.Teletype

variable {cps : Nat} {interval now : Time} {already : List Byte} {connected : Bool} {sink : Sink}
  {d : Deed} {h : List Moment} {t t' u : Teletype} {events : List Event}

/-! ## What a deed does to the keyboard -/

/-- Of the transfers only KCC and KRB clear the flag. -/
theorem transfer_keyboard (code ac : Word) (t : Teletype) :
    SameKeyboard
      { t with
        keyboardFlag := t.keyboardFlag && !(Deed.transfer code ac).clearsKeyboard
        interruptEnable := (t.iot code ac).2.2.interruptEnable }
      (t.iot code ac).2.2 := by
  have hkept : t.keyboardFlag = (t.keyboardFlag && true) := (Bool.and_true _).symm
  have hcleared : false = (t.keyboardFlag && false) := (Bool.and_false _).symm
  unfold Deed.clearsKeyboard Deed.command? iot
  dsimp only
  cases TeletypeCommand.ofCode? code with
  | none => exact ⟨hkept, rfl, rfl, rfl, rfl, rfl⟩
  | some c =>
    cases c
    case kcc => exact ⟨hcleared, rfl, rfl, rfl, rfl, rfl⟩
    case krb => exact ⟨hcleared, rfl, rfl, rfl, rfl, rfl⟩
    all_goals exact ⟨hkept, rfl, rfl, rfl, rfl, rfl⟩

/-- A poll latches the oldest byte if there is one and it is time, and otherwise leaves the
keyboard alone. -/
theorem keyboard_of_poll (hq : t.keyboard.IsQueue) (hd : t.undergo (.poll now) = .ok t') :
    (∃ b line, t.keyboardDue ≤ now ∧ t.keyboard.waiting = b :: line.waiting ∧ line.IsQueue ∧
        SameKeyboard
          { t with
            keyboardChar := b
            keyboardFlag := true
            keyboardDue := now + t.interval
            keyboard := line } t') ∨
      ((t.keyboard.waiting = [] ∨ now < t.keyboardDue) ∧ SameKeyboard t t') := by
  obtain ⟨t₁, printed, t₂, typed, hprinter, hkeyboard, rfl⟩ := undergo_poll_eq_ok_iff.mp hd
  have hsame := sameKeyboard_servePrinter hprinter
  have hread := hq.read
  rw [← hsame.line] at hread
  rcases serveKeyboard_cases hkeyboard with
    ⟨hearly, rfl⟩ | ⟨hdue, line, hnone, rfl⟩ | ⟨hdue, b, line, hsome, rfl⟩
  · refine .inr ⟨.inr ?_, hsame.flag, hsame.char, hsame.due, hsame.interval, hsame.line,
      hsame.enable⟩
    exact Nat.lt_of_not_le (hsame.due ▸ hearly)
  · rcases hread with ⟨hempty, hnone'⟩ | ⟨b, _, hsome, -⟩
    · rw [hnone] at hnone'
      cases hnone'
      rw [hsame.line] at hempty
      exact .inr ⟨.inl hempty, hsame.flag, hsame.char, hsame.due, hsame.interval, hsame.line,
        hsame.enable⟩
    · rw [hnone] at hsome
      cases hsome
  · rcases hread with ⟨-, hnone⟩ | ⟨b', line', hsome', hwaiting, hqueue⟩
    · rw [hsome] at hnone
      cases hnone
    · rw [hsome] at hsome'
      cases hsome'
      rw [hsame.line] at hwaiting
      exact .inl ⟨b, line, hsame.due ▸ hdue, hwaiting, hqueue, rfl, rfl,
        congrArg (now + ·) hsame.interval, hsame.interval, rfl, hsame.enable⟩

/-- A deed makes the oldest byte come off the line, or sends some bytes along it, or does no more
than clear the flag. -/
theorem keyboard_cases (hq : t.keyboard.IsQueue) (hd : t.undergo d = .ok t') :
    (∃ now b line, d = .poll now ∧ t.keyboardDue ≤ now ∧
        t.keyboard.waiting = b :: line.waiting ∧ line.IsQueue ∧
        SameKeyboard
          { t with
            keyboardChar := b
            keyboardFlag := true
            keyboardDue := now + t.interval
            keyboard := line } t') ∨
      (∃ line, line.IsQueue ∧
        line.waiting = t.keyboard.waiting ++ Moment.sent ⟨d, t, t'⟩ ∧
        (d.polls = true → line = t.keyboard) ∧
        SameKeyboard
          { t with
            keyboardFlag := t.keyboardFlag && !d.clearsKeyboard
            interruptEnable := t'.interruptEnable
            keyboard := line } t') := by
  have hkept : t.keyboardFlag = (t.keyboardFlag && true) := (Bool.and_true _).symm
  have hnothing : t.keyboard.waiting = t.keyboard.waiting ++ [] := (List.append_nil _).symm
  cases d with
  | poll now =>
    rcases keyboard_of_poll hq hd with ⟨b, line, hdue, hwaiting, hqueue, hsame⟩ | ⟨-, hsame⟩
    · exact .inl ⟨now, b, line, rfl, hdue, hwaiting, hqueue, hsame⟩
    · exact .inr ⟨t.keyboard, hq, hnothing, fun _ => rfl, hsame.flag.trans hkept, hsame.char,
        hsame.due, hsame.interval, hsame.line, rfl⟩
  | transfer code ac =>
    cases hd
    exact .inr ⟨t.keyboard, hq, hnothing, nofun, transfer_keyboard code ac t⟩
  | type bytes =>
    cases hd
    exact .inr ⟨t.keyboard.send bytes, hq.send bytes, Keyboard.waiting_send bytes _, nofun,
      hkept, rfl, rfl, rfl, rfl, rfl⟩
  | hangUp =>
    cases hd
    exact .inr ⟨t.keyboard.hangUp, hq.hangUp, (Keyboard.waiting_hangUp _).trans hnothing, nofun,
      hkept, rfl, rfl, rfl, rfl, rfl⟩

/-- If the oldest byte has come off the line into the buffer, it has been latched. -/
theorem latched?_eq_some {b : Byte} (hwaiting : t.keyboard.waiting = b :: t'.keyboard.waiting)
    (hchar : t'.keyboardChar = b) : Moment.latched? ⟨.poll now, t, t'⟩ = some (now, b) := by
  have hfewer : t'.keyboard.waiting.length < t.keyboard.waiting.length := by
    rw [hwaiting]
    exact Nat.lt_succ_self _
  unfold Moment.latched?
  dsimp only
  rw [if_pos hfewer, hchar]

/-! ## The invariant -/

/-- The character latched last. -/
def latest? (h : List Moment) : Option Byte := (latches h).head?.map Prod.snd

/-- The keyboard is what its history says. -/
structure KeyboardTracks (interval : Time) (already : List Byte) (h : List Moment)
    (t : Teletype) : Prop where
  pace : t.interval = interval
  queue : t.keyboard.IsQueue
  conserved : ((latches h).map Prod.snd).reverse ++ t.keyboard.waiting = already ++ sentBytes h
  char : t.keyboardChar = (latest? h).getD 0
  due : t.keyboardDue = dueAfter interval ((latches h).map Prod.fst)
  paced : Paced interval ((latches h).map Prod.fst)
  flag : t.keyboardFlag = true ↔ HappenedSince Deed.clearsKeyboard Moment.latched? h

theorem keyboardTracks_powerUp :
    KeyboardTracks (charInterval cps) already [] (powerUp cps (.queue already connected) sink) where
  pace := rfl
  queue := ⟨already, connected, rfl⟩
  conserved := (List.append_nil already).symm
  char := rfl
  due := rfl
  paced := .nil
  flag := ⟨nofun, fun h => absurd h not_happenedSince_nil⟩

/-- A byte that comes off the line is latched. -/
theorem KeyboardTracks.latch {b : Byte} {line : Keyboard} (ht : KeyboardTracks interval already h t)
    (hdue : t.keyboardDue ≤ now) (hwaiting : t.keyboard.waiting = b :: line.waiting)
    (hqueue : line.IsQueue)
    (hsame : SameKeyboard
      { t with
        keyboardChar := b
        keyboardFlag := true
        keyboardDue := now + t.interval
        keyboard := line } t') :
    KeyboardTracks interval already (⟨.poll now, t, t'⟩ :: h) t' := by
  have hline : t'.keyboard = line := hsame.line
  have hchar : t'.keyboardChar = b := hsame.char
  have hsome : Moment.latched? ⟨.poll now, t, t'⟩ = some (now, b) :=
    latched?_eq_some (hline ▸ hwaiting) hchar
  have hlatches : latches (⟨.poll now, t, t'⟩ :: h) = (now, b) :: latches h :=
    List.filterMap_cons_some hsome
  have hsent : sentBytes (⟨.poll now, t, t'⟩ :: h) = sentBytes h := by
    rw [sentBytes_cons]
    exact List.append_nil _
  have hconserved := ht.conserved
  rw [hwaiting] at hconserved
  constructor
  · exact hsame.interval.trans ht.pace
  · rw [hline]
    exact hqueue
  · rw [hlatches, hsent, hline, ← hconserved, List.map_cons, List.reverse_cons, List.append_assoc]
    rfl
  · unfold latest?
    rw [hlatches, hchar]
    rfl
  · rw [hlatches]
    exact hsame.due.trans (congrArg (now + ·) ht.pace)
  · rw [hlatches]
    exact ht.paced.cons (ht.due ▸ hdue)
  · rw [hsame.flag]
    exact ⟨fun _ => happenedSince_cons_of_some hsome rfl, fun _ => rfl⟩

/-- Anything else leaves the buffer as it is. -/
theorem KeyboardTracks.keep {line : Keyboard} (ht : KeyboardTracks interval already h t)
    (hqueue : line.IsQueue)
    (hwaiting : line.waiting = t.keyboard.waiting ++ Moment.sent ⟨d, t, t'⟩)
    (hstays : d.polls = true → line = t.keyboard)
    (hsame : SameKeyboard
      { t with
        keyboardFlag := t.keyboardFlag && !d.clearsKeyboard
        interruptEnable := t'.interruptEnable
        keyboard := line } t') :
    KeyboardTracks interval already (⟨d, t, t'⟩ :: h) t' := by
  have hline : t'.keyboard = line := hsame.line
  have hnone : Moment.latched? ⟨d, t, t'⟩ = none := by
    unfold Moment.latched?
    cases d with
    | poll now =>
      dsimp only
      rw [hline, hstays rfl, if_neg (Nat.lt_irrefl _)]
    | transfer code ac => rfl
    | type bytes => rfl
    | hangUp => rfl
  have hlatches : latches (⟨d, t, t'⟩ :: h) = latches h :=
    List.filterMap_cons_none hnone
  constructor
  · exact hsame.interval.trans ht.pace
  · rw [hline]
    exact hqueue
  · rw [hlatches, sentBytes_cons, hline, hwaiting, ← List.append_assoc, ht.conserved,
      List.append_assoc]
  · unfold latest?
    rw [hlatches]
    exact hsame.char.trans ht.char
  · rw [hlatches]
    exact hsame.due.trans ht.due
  · rw [hlatches]
    exact ht.paced
  · rw [happenedSince_cons_of_none hnone, hsame.flag, Bool.and_eq_true, ht.flag, and_comm]
    simp

theorem KeyboardTracks.next (ht : KeyboardTracks interval already h t) (hd : t.undergo d = .ok t') :
    KeyboardTracks interval already (⟨d, t, t'⟩ :: h) t' := by
  rcases keyboard_cases ht.queue hd with
    ⟨now, b, line, rfl, hdue, hwaiting, hqueue, hsame⟩ | ⟨line, hqueue, hwaiting, hstays, hsame⟩
  · exact ht.latch hdue hwaiting hqueue hsame
  · exact ht.keep hqueue hwaiting hstays hsame

theorem keyboardTracks_of_course
    (hrun : Course (powerUp cps (.queue already connected) sink) h t) :
    KeyboardTracks (charInterval cps) already h t := by
  induction hrun with
  | start => exact keyboardTracks_powerUp
  | next _ hd ih => exact ih.next hd

/-! ## The keyboard alone -/

/-- The keyboard's half of a poll reads nothing but the keyboard. -/
theorem SameKeyboard.serveKeyboard (h : SameKeyboard t u)
    (hd : t.serveKeyboard now = .ok (t', events)) :
    ∃ u', u.serveKeyboard now = .ok (u', events) ∧ SameKeyboard t' u' ∧ u'.printer = u.printer := by
  unfold Teletype.serveKeyboard at hd ⊢
  rw [h.due, h.line]
  split_ifs at hd ⊢ with hdue
  · split at hd
    · cases hd
      exact ⟨_, rfl, ⟨rfl, rfl, congrArg (now + ·) h.interval, h.interval, rfl, h.enable⟩, rfl⟩
    · cases hd
      exact ⟨_, rfl, ⟨h.flag, h.char, rfl, h.interval, rfl, h.enable⟩, rfl⟩
    · cases hd
  · cases hd
    exact ⟨_, rfl, h, rfl⟩

/-- A printer that is not connected refuses everything. -/
theorem servePrinter_unconnected (hu : u.printer.sink = .unconnected) :
    u.servePrinter now = .ok (u, []) := by
  have hwrite : u.printer.write u.printerChar = (.ok false, u.printer) := by
    unfold Printer.write
    rw [hu]
  unfold servePrinter
  rw [hwrite]
  split_ifs
  · rfl
  · rfl

/-- The keyboard takes no notice of what does not concern it, and of nothing but the keyboard. -/
theorem SameKeyboard.undergo (h : SameKeyboard t u) (hu : u.printer.sink = .unconnected)
    (hd : t.undergo d = .ok t') :
    (d.concernsKeyboard = true →
        ∃ u', u.undergo d = .ok u' ∧ SameKeyboard t' u' ∧ u'.printer.sink = .unconnected) ∧
      (d.concernsKeyboard = false → SameKeyboard t' u) := by
  cases d with
  | poll now =>
    obtain ⟨t₁, printed, t₂, typed, hprinter, hkeyboard, rfl⟩ := undergo_poll_eq_ok_iff.mp hd
    have hbefore := sameKeyboard_servePrinter hprinter
    have h₁ : SameKeyboard t₁ u :=
      ⟨h.flag.trans hbefore.flag.symm, h.char.trans hbefore.char.symm,
        h.due.trans hbefore.due.symm, h.interval.trans hbefore.interval.symm,
        h.line.trans hbefore.line.symm, h.enable.trans hbefore.enable.symm⟩
    obtain ⟨u₂, hkeyboard', hsame, hu₂⟩ := h₁.serveKeyboard hkeyboard
    refine ⟨fun _ => ⟨u₂.updateRequest, ?_, ?_, (congrArg Printer.sink hu₂).trans hu⟩, nofun⟩
    · exact undergo_poll_eq_ok_iff.mpr
        ⟨u, [], u₂, typed, servePrinter_unconnected hu, hkeyboard', rfl⟩
    · exact ⟨hsame.flag, hsame.char, hsame.due, hsame.interval, hsame.line, hsame.enable⟩
  | type bytes =>
    cases hd
    exact ⟨fun _ => ⟨_, rfl, ⟨h.flag, h.char, h.due, h.interval,
      congrArg (Keyboard.send bytes) h.line, h.enable⟩, hu⟩, nofun⟩
  | hangUp =>
    cases hd
    exact ⟨fun _ => ⟨_, rfl, ⟨h.flag, h.char, h.due, h.interval,
      congrArg Keyboard.hangUp h.line, h.enable⟩, hu⟩, nofun⟩
  | transfer code ac =>
    cases hd
    unfold Deed.concernsKeyboard Teletype.undergo iot
    dsimp only
    cases TeletypeCommand.ofCode? code with
    | none => exact ⟨nofun, fun _ => h⟩
    | some c =>
      cases c
      case ksf => exact ⟨fun _ => ⟨_, rfl, h, hu⟩, nofun⟩
      case krs => exact ⟨fun _ => ⟨_, rfl, h, hu⟩, nofun⟩
      case kcc =>
        exact ⟨fun _ => ⟨_, rfl, ⟨rfl, h.char, h.due, h.interval, h.line, h.enable⟩, hu⟩, nofun⟩
      case krb =>
        exact ⟨fun _ => ⟨_, rfl, ⟨rfl, h.char, h.due, h.interval, h.line, h.enable⟩, hu⟩, nofun⟩
      case kie =>
        exact ⟨fun _ => ⟨_, rfl, ⟨h.flag, h.char, h.due, h.interval, h.line, rfl⟩, hu⟩, nofun⟩
      all_goals exact ⟨nofun, fun _ => ⟨h.flag, h.char, h.due, h.interval, h.line, h.enable⟩⟩

/-- What is latched depends on the keyboard alone. -/
theorem SameKeyboard.latched? {u' : Teletype} (h : SameKeyboard t u) (h' : SameKeyboard t' u') :
    Moment.latched? ⟨d, u, u'⟩ = Moment.latched? ⟨d, t, t'⟩ := by
  unfold Moment.latched?
  dsimp only
  rw [h.line, h'.line, h'.char]

/-- Only what concerns the keyboard latches anything. -/
theorem latched?_of_not_concerns (hc : d.concernsKeyboard = false) :
    Moment.latched? ⟨d, t, t'⟩ = none := by
  cases d with
  | transfer code ac => rfl
  | poll now => cases hc
  | type bytes => cases hc
  | hangUp => cases hc

/-- The keyboard does the same without a printer, and without anything that happens to one. -/
theorem exists_course_of_keyboard {keyboard : Keyboard}
    (hrun : Course (powerUp cps keyboard sink) h t) :
    ∃ h' u, Course (powerUp cps keyboard .unconnected) h' u ∧
      h'.map Moment.deed = (h.map Moment.deed).filter Deed.concernsKeyboard ∧
      latches h' = latches h ∧ SameKeyboard t u := by
  have hstart : SameKeyboard (powerUp cps keyboard sink) (powerUp cps keyboard .unconnected) :=
    ⟨rfl, rfl, rfl, rfl, rfl, rfl⟩
  have halone : ∃ h' u, Course (powerUp cps keyboard .unconnected) h' u ∧
      h'.map Moment.deed = (h.map Moment.deed).filter Deed.concernsKeyboard ∧
      latches h' = latches h ∧ SameKeyboard t u ∧ u.printer.sink = .unconnected := by
    refine exists_course_alone (R := fun t u => SameKeyboard t u ∧ u.printer.sink = .unconnected)
      _ _ ⟨hstart, rfl⟩ ?_ ?_ hrun
    · rintro t u t' d ⟨hsame, hu⟩ hd hc
      obtain ⟨u', hd', hsame', hu'⟩ := (hsame.undergo hu hd).1 hc
      exact ⟨u', hd', ⟨hsame', hu'⟩, hsame.latched? hsame'⟩
    · rintro t u t' d ⟨hsame, hu⟩ hd hc
      exact ⟨⟨(hsame.undergo hu hd).2 hc, hu⟩, latched?_of_not_concerns hc⟩
  obtain ⟨h', u, hrun', hdeeds, hlatches, hsame, -⟩ := halone
  exact ⟨h', u, hrun', hdeeds, hlatches, hsame⟩

/-! ## Transport -/

/-- How a teletype deals with the characters that are typed, of which some had been sent before it
was powered up. -/
structure KeyboardTransport (cps : Nat) (already : List Byte) (connected : Bool) (h : List Moment)
    (t : Teletype) : Prop where
  /-- The latched characters, with the bytes that wait, are the bytes sent, in order.  (No moment
  has more than one character, and only a poll has any.) -/
  conserved : ((latches h).map Prod.snd).reverse ++ t.keyboard.waiting = already ++ sentBytes h
  /-- Latches keep the pace. -/
  paced : Paced (Time.ofMicros (1000000 / max cps 1)) ((latches h).map Prod.fst)
  /-- A poll goes through, whether or not the sender is still there, unless the printer fails. -/
  polled : ∀ now, (∀ e, (t.printer.write t.printerChar).1 ≠ .error e) →
    ∃ t', t.undergo (.poll now) = .ok t'
  /-- It latches the oldest byte whenever there is one and an interval has passed since the last. -/
  latched : ∀ now t' b rest, t.undergo (.poll now) = .ok t' → t.keyboard.waiting = b :: rest →
    dueAfter (Time.ofMicros (1000000 / max cps 1)) ((latches h).map Prod.fst) ≤ now →
    latches (⟨.poll now, t, t'⟩ :: h) = (now, b) :: latches h ∧ t'.keyboard.waiting = rest
  /-- The flag is up if a character has been latched since KCC or KRB last cleared it. -/
  flag : t.keyboardFlag = true ↔
    ∃ m ∈ h.takeWhile (!·.deed.clearsKeyboard), m.latched?.isSome = true
  /-- KRS and KRB read the character latched last. -/
  read : ∀ ac, t.iot 0o6034 ac = (.done, ac ||| ((latest? h).getD 0).setWidth 12, t) ∧
    t.iot 0o6036 ac = (.done, ((latest? h).getD 0).setWidth 12, { t with keyboardFlag := false })
  /-- After a poll the request line says what the flags say. -/
  request : ∀ now t', t.undergo (.poll now) = .ok t' →
    t'.interruptRequest = (t'.interruptEnable && (t'.keyboardFlag || t'.printerFlag))
  /-- The printer has nothing else to do with it: without one, and without anything that concerns
  one, the same characters are latched at the same times, and the keyboard is the same. -/
  alone : ∃ h' u, Course (powerUp cps (.queue already connected) .unconnected) h' u ∧
    h'.map Moment.deed = (h.map Moment.deed).filter Deed.concernsKeyboard ∧
    latches h' = latches h ∧ SameKeyboard t u

/-- In every history of a teletype, of any speed, whose keyboard is joined to a queue, and which is
polled at any times and given any transfers while bytes are sent along the queue until the sender
hangs up, the characters come in as they should. -/
theorem keyboard_transport (hrun : Course (powerUp cps (.queue already connected) sink) h t) :
    KeyboardTransport cps already connected h t := by
  have ht := keyboardTracks_of_course hrun
  constructor
  · exact ht.conserved
  · exact ht.paced
  · intro now hprinter
    refine exists_undergo_poll now hprinter ?_
    intro e he
    rcases ht.queue.read with ⟨-, hread⟩ | ⟨b, line, hread, -⟩
    · rw [hread] at he
      cases he
    · rw [hread] at he
      cases he
  · intro now t' b rest hd hwaiting hdue
    rcases keyboard_of_poll ht.queue hd with
      ⟨b', line, -, hwaiting', -, hsame⟩ | ⟨hno, -⟩
    · rw [hwaiting] at hwaiting'
      cases hwaiting'
      have hrest : t'.keyboard.waiting = line.waiting := congrArg Keyboard.waiting hsame.line
      have hsome : Moment.latched? ⟨.poll now, t, t'⟩ = some (now, b) :=
        latched?_eq_some (hrest.symm ▸ hwaiting) hsame.char
      exact ⟨List.filterMap_cons_some hsome, hrest⟩
    · rcases hno with hempty | hearly
      · rw [hwaiting] at hempty
        cases hempty
      · exact absurd (ht.due ▸ hdue) (Nat.not_le_of_lt hearly)
  · exact ht.flag
  · intro ac
    rw [← ht.char]
    exact ⟨rfl, rfl⟩
  · intro now t' hd
    obtain ⟨t₁, printed, t₂, typed, -, -, rfl⟩ := undergo_poll_eq_ok_iff.mp hd
    rfl
  · exact exists_course_of_keyboard hrun

/-- Of two characters that are typed at once the second comes an interval later, though whoever
typed them has gone. -/
theorem keyboard_transport_hung_up :
    ∃ h t, Course (powerUp 10 (.queue [] true) .unconnected) h t ∧
      h.map Moment.deed =
        [.poll (Time.ofMicros 100000), .poll 1, .hangUp, .poll 0, .type [0o101, 0o102]] ∧
      KeyboardTransport 10 [] true h t ∧
      latches h = [(Time.ofMicros 100000, 0o102), (0, 0o101)] := by
  have hstart : Course (powerUp 10 (.queue [] true) .unconnected) [] _ := .start
  have htyped := (hstart.next (d := .type [0o101, 0o102]) rfl).next (d := .poll 0) rfl
  have hrun := ((htyped.next (d := .hangUp) rfl).next (d := .poll 1) rfl).next
    (d := .poll (Time.ofMicros 100000)) rfl
  exact ⟨_, _, hrun, rfl, keyboard_transport hrun, rfl⟩

end Pdp8.Teletype
