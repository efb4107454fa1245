import Mathlib.Tactic.SplitIfs
import Pdp8.Proofs.TeletypeHistory

/-!
# Pdp8.Proofs.PrinterTransport — what becomes of the characters that are loaded

Between a load and its acceptance by the line a character waits in the buffer, where another load
may overwrite it.  Nothing else gets lost, and nothing is printed twice: the line takes the loaded
bytes in order, but for the overwritten ones (`kept`), at the pace of the teletype, and the flag
tells of it.  What a deed can do to the printer is one of three things (`printer_cases`).
-/

namespace Pdp8.Teletype

variable {cps : Nat} {interval now : Time} {keyboard : Keyboard} {sink : Sink} {d : Deed}
  {h : List Moment} {start t t' u : Teletype} {events : List Event}

/-! ## Loads -/

/-- A load that finds no character waiting. -/
def Moment.loadsIdle (m : Moment) : Bool := m.deed.load?.isSome && !m.before.printerFull

/-- The loaded bytes, the latest first, without those that another load overwrote while they were
still waiting. -/
def kept : List Moment → List Byte
  | [] => []
  | m :: h =>
    match m.deed.load? with
    | none => kept h
    | some b => if m.before.printerFull then b :: (kept h).tail else b :: kept h

/-- The byte loaded last. -/
def lastLoad? (h : List Moment) : Option Byte := h.findSome? fun m => m.deed.load?

/-- The character that waits for the line, if there is one. -/
def pending (t : Teletype) : List Byte := if t.printerFull then [t.printerChar] else []

theorem kept_cons_of_none {m : Moment} (hload : m.deed.load? = none) : kept (m :: h) = kept h := by
  rw [kept, hload]

theorem lastLoad?_cons_of_none {m : Moment} (hload : m.deed.load? = none) :
    lastLoad? (m :: h) = lastLoad? h := by
  unfold lastLoad?
  rw [List.findSome?_cons, hload]

theorem lastLoad?_cons_of_some {m : Moment} {b : Byte} (hload : m.deed.load? = some b) :
    lastLoad? (m :: h) = some b := by
  unfold lastLoad?
  rw [List.findSome?_cons, hload]

/-- If no load ever found a character waiting, all of them are kept. -/
theorem kept_of_idle (hidle : ∀ m ∈ h, m.deed.load?.isSome = true → m.before.printerFull = false) :
    kept h = h.filterMap fun m => m.deed.load? := by
  induction h with
  | nil => rfl
  | cons m h ih =>
    obtain ⟨hm, hrest⟩ := List.forall_mem_cons.mp hidle
    rw [kept, List.filterMap_cons, ih hrest]
    cases hload : m.deed.load? with
    | none => rfl
    | some b =>
      rw [hload] at hm
      rw [hm rfl]
      rfl

/-! ## What a deed does to the printer -/

/-- Of the transfers only TPC and TLS load, and only TCF and TLS clear the flag. -/
theorem samePrinter_transfer (code ac : Word) (t : Teletype) :
    (∃ b, (Deed.transfer code ac).load? = some b ∧
        SamePrinter
          { t with
            printerChar := b
            printerFull := true
            printerFlag := t.printerFlag && !(Deed.transfer code ac).clearsPrinter }
          (t.iot code ac).2.2) ∨
      ((Deed.transfer code ac).load? = none ∧
        SamePrinter
          { t with printerFlag := t.printerFlag && !(Deed.transfer code ac).clearsPrinter }
          (t.iot code ac).2.2) := by
  have hkept : t.printerFlag = (t.printerFlag && true) := (Bool.and_true _).symm
  have hcleared : false = (t.printerFlag && false) := (Bool.and_false _).symm
  unfold Deed.load? Deed.clearsPrinter Deed.command? iot
  dsimp only
  cases TeletypeCommand.ofCode? code with
  | none => exact .inr ⟨rfl, hkept, rfl, rfl, rfl, rfl, rfl⟩
  | some c =>
    cases c
    case tpc => exact .inl ⟨_, rfl, hkept, rfl, rfl, rfl, rfl, rfl⟩
    case tls => exact .inl ⟨_, rfl, hcleared, rfl, rfl, rfl, rfl, rfl⟩
    case tcf => exact .inr ⟨rfl, hcleared, rfl, rfl, rfl, rfl, rfl⟩
    all_goals exact .inr ⟨rfl, hkept, rfl, rfl, rfl, rfl, rfl⟩

/-- A deed loads the printer, or makes its line accept the waiting character, or does no more than
clear the flag. -/
theorem printer_cases (hd : t.undergo d = .ok t') :
    (∃ b, d.load? = some b ∧
        SamePrinter
          { t with
            printerChar := b
            printerFull := true
            printerFlag := t.printerFlag && !d.clearsPrinter } t') ∨
      (∃ now line, d = .poll now ∧ t.Offers now ∧
        t.printer.write t.printerChar = (.ok true, line) ∧
        SamePrinter
          { t with
            printerFlag := true
            printerFull := false
            printerDue := now + t.interval
            printer := line } t') ∨
      (d.load? = none ∧ ∃ line, line.printed = t.printer.printed ∧
        (d.polls = false → line = t.printer) ∧
        SamePrinter
          { t with printerFlag := t.printerFlag && !d.clearsPrinter, printer := line } t') := by
  have hkept : t.printerFlag = (t.printerFlag && true) := (Bool.and_true _).symm
  cases d with
  | poll now =>
    obtain ⟨t₁, printed, t₂, typed, hprinter, hkeyboard, rfl⟩ := undergo_poll_eq_ok_iff.mp hd
    have hsame := samePrinter_serveKeyboard hkeyboard
    rcases servePrinter_cases hprinter with
      ⟨-, rfl⟩ | ⟨-, line, hwrite, rfl⟩ | ⟨hoffers, line, hwrite, rfl⟩
    · exact .inr (.inr ⟨rfl, _, rfl, nofun, hsame.flag.trans hkept, hsame.full, hsame.char,
        hsame.due, hsame.interval, hsame.line⟩)
    · exact .inr (.inr ⟨rfl, line, (Printer.printed_write hwrite).trans (List.append_nil _), nofun,
        hsame.flag.trans hkept, hsame.full, hsame.char, hsame.due, hsame.interval, hsame.line⟩)
    · exact .inr (.inl ⟨now, line, rfl, hoffers, hwrite, hsame.flag, hsame.full, hsame.char,
        hsame.due, hsame.interval, hsame.line⟩)
  | transfer code ac =>
    cases hd
    rcases samePrinter_transfer code ac t with ⟨b, hload, hsame⟩ | ⟨hload, hsame⟩
    · exact .inl ⟨b, hload, hsame⟩
    · exact .inr (.inr ⟨hload, _, rfl, fun _ => rfl, hsame⟩)
  | type bytes =>
    cases hd
    exact .inr (.inr ⟨rfl, _, rfl, fun _ => rfl, hkept, rfl, rfl, rfl, rfl, rfl⟩)
  | hangUp =>
    cases hd
    exact .inr (.inr ⟨rfl, _, rfl, fun _ => rfl, hkept, rfl, rfl, rfl, rfl, rfl⟩)

/-- If the line has nothing new, nothing has been accepted. -/
theorem accepted?_eq_none (hline : t'.printer.printed = t.printer.printed) :
    Moment.accepted? ⟨d, t, t'⟩ = none := by
  unfold Moment.accepted?
  dsimp only
  rw [hline, List.drop_length]
  split
  · rename_i hnil
    cases hnil
  · rfl

theorem accepted?_eq_some {b : Byte} (hline : t'.printer.printed = t.printer.printed ++ [b]) :
    Moment.accepted? ⟨.poll now, t, t'⟩ = some (now, b) := by
  unfold Moment.accepted?
  dsimp only
  rw [hline, List.drop_left]

/-! ## The invariant -/

/-- The printer is what its history says. -/
structure PrinterTracks (interval : Time) (h : List Moment) (t : Teletype) : Prop where
  pace : t.interval = interval
  line : t.printer.printed = ((acceptances h).map Prod.snd).reverse
  char : t.printerChar = (lastLoad? h).getD 0
  loaded : t.printerFull = true → lastLoad? h = some t.printerChar
  kept : t.pending ++ (acceptances h).map Prod.snd = kept h
  count : (acceptances h).length + t.printerFull.toNat = h.countP Moment.loadsIdle
  due : t.printerDue = dueAfter interval ((acceptances h).map Prod.fst)
  paced : Paced interval ((acceptances h).map Prod.fst)
  flag : t.printerFlag = true ↔ HappenedSince Deed.clearsPrinter Moment.accepted? h

theorem printerTracks_powerUp :
    PrinterTracks (charInterval cps) [] (powerUp cps keyboard sink) where
  pace := rfl
  line := rfl
  char := rfl
  loaded := nofun
  kept := rfl
  count := rfl
  due := rfl
  paced := .nil
  flag := ⟨nofun, fun h => absurd h not_happenedSince_nil⟩

section Step

variable (ht : PrinterTracks interval h t)

include ht

/-- A load takes the place of a character that waits. -/
theorem PrinterTracks.load {b : Byte} (hload : d.load? = some b)
    (hsame : SamePrinter
      { t with
        printerChar := b
        printerFull := true
        printerFlag := t.printerFlag && !d.clearsPrinter } t') :
    PrinterTracks interval (⟨d, t, t'⟩ :: h) t' := by
  have hline : t'.printer.printed = t.printer.printed := congrArg Printer.printed hsame.line
  have hnone : Moment.accepted? ⟨d, t, t'⟩ = none := accepted?_eq_none hline
  have hfull : t'.printerFull = true := hsame.full
  have hchar : t'.printerChar = b := hsame.char
  have hacceptances : acceptances (⟨d, t, t'⟩ :: h) = acceptances h :=
    List.filterMap_cons_none hnone
  have hlast : lastLoad? (⟨d, t, t'⟩ :: h) = some b := lastLoad?_cons_of_some hload
  have hpending : t'.pending = [b] := by
    unfold pending
    rw [hfull, hchar]
    rfl
  have hkept := ht.kept
  have hcount := ht.count
  constructor
  · exact hsame.interval.trans ht.pace
  · rw [hacceptances, hline, ht.line]
  · rw [hlast, hchar]
    rfl
  · rw [hlast, hchar]
    exact fun _ => rfl
  · rw [hacceptances, hpending]
    unfold pending at hkept
    unfold Teletype.kept
    simp only [hload]
    cases hbefore : t.printerFull with
    | true =>
      rw [hbefore] at hkept
      rw [← hkept]
      rfl
    | false =>
      rw [hbefore] at hkept
      rw [← hkept]
      rfl
  · rw [hacceptances, hfull, List.countP_cons, ← hcount]
    unfold Moment.loadsIdle
    simp only [hload, Option.isSome_some, Bool.true_and]
    cases t.printerFull <;> rfl
  · rw [hacceptances]
    exact hsame.due.trans ht.due
  · rw [hacceptances]
    exact ht.paced
  · rw [happenedSince_cons_of_none hnone, hsame.flag, Bool.and_eq_true, ht.flag, and_comm]
    simp

/-- What the line accepts is the byte loaded last. -/
theorem PrinterTracks.accept {line : Printer} (hoffers : t.Offers now)
    (hwrite : t.printer.write t.printerChar = (.ok true, line))
    (hsame : SamePrinter
      { t with
        printerFlag := true
        printerFull := false
        printerDue := now + t.interval
        printer := line } t') :
    PrinterTracks interval (⟨.poll now, t, t'⟩ :: h) t' := by
  obtain ⟨hfull, hdue⟩ := hoffers
  have hline : t'.printer.printed = t.printer.printed ++ [t.printerChar] :=
    (congrArg Printer.printed hsame.line).trans (Printer.printed_write hwrite)
  have hsome : Moment.accepted? ⟨.poll now, t, t'⟩ = some (now, t.printerChar) :=
    accepted?_eq_some hline
  have hacceptances : acceptances (⟨.poll now, t, t'⟩ :: h) =
      (now, t.printerChar) :: acceptances h := List.filterMap_cons_some hsome
  have hempty : t'.printerFull = false := hsame.full
  have hlast : lastLoad? (⟨.poll now, t, t'⟩ :: h) = lastLoad? h := lastLoad?_cons_of_none rfl
  have hkept := ht.kept
  have hcount := ht.count
  unfold pending at hkept
  rw [hfull] at hkept hcount
  constructor
  · exact hsame.interval.trans ht.pace
  · rw [hacceptances, hline, ht.line, List.map_cons, List.reverse_cons]
  · rw [hlast]
    exact hsame.char.trans ht.char
  · rw [hempty]
    exact nofun
  · rw [hacceptances, kept_cons_of_none rfl, ← hkept]
    unfold pending
    rw [hempty]
    rfl
  · rw [hacceptances, hempty, List.countP_cons, ← hcount]
    rfl
  · rw [hacceptances]
    exact hsame.due.trans (congrArg (now + ·) ht.pace)
  · rw [hacceptances]
    exact ht.paced.cons (ht.due ▸ hdue)
  · rw [hsame.flag]
    exact ⟨fun _ => happenedSince_cons_of_some hsome rfl, fun _ => rfl⟩

/-- Anything else leaves the printer as it is, but for its flag. -/
theorem PrinterTracks.keep {line : Printer} (hload : d.load? = none)
    (hprinted : line.printed = t.printer.printed)
    (hsame : SamePrinter
      { t with printerFlag := t.printerFlag && !d.clearsPrinter, printer := line } t') :
    PrinterTracks interval (⟨d, t, t'⟩ :: h) t' := by
  have hline : t'.printer.printed = t.printer.printed :=
    (congrArg Printer.printed hsame.line).trans hprinted
  have hnone : Moment.accepted? ⟨d, t, t'⟩ = none := accepted?_eq_none hline
  have hacceptances : acceptances (⟨d, t, t'⟩ :: h) = acceptances h :=
    List.filterMap_cons_none hnone
  have hlast : lastLoad? (⟨d, t, t'⟩ :: h) = lastLoad? h := lastLoad?_cons_of_none hload
  have hfull : t'.printerFull = t.printerFull := hsame.full
  have hchar : t'.printerChar = t.printerChar := hsame.char
  have hpending : t'.pending = t.pending := by
    unfold pending
    rw [hfull, hchar]
  have hidle : Moment.loadsIdle ⟨d, t, t'⟩ = false := by
    unfold Moment.loadsIdle
    rw [hload]
    rfl
  constructor
  · exact hsame.interval.trans ht.pace
  · rw [hacceptances, hline, ht.line]
  · rw [hlast, hchar, ht.char]
  · rw [hlast, hchar, hfull]
    exact ht.loaded
  · rw [hacceptances, hpending, kept_cons_of_none hload, ht.kept]
  · rw [hacceptances, hfull, List.countP_cons, hidle, ht.count]
    rfl
  · rw [hacceptances]
    exact hsame.due.trans ht.due
  · rw [hacceptances]
    exact ht.paced
  · rw [happenedSince_cons_of_none hnone, hsame.flag, Bool.and_eq_true, ht.flag, and_comm]
    simp

theorem PrinterTracks.next (hd : t.undergo d = .ok t') :
    PrinterTracks interval (⟨d, t, t'⟩ :: h) t' := by
  rcases printer_cases hd with
    ⟨b, hload, hsame⟩ | ⟨now, line, rfl, hoffers, hwrite, hsame⟩ |
    ⟨hload, line, hprinted, -, hsame⟩
  · exact ht.load hload hsame
  · exact ht.accept hoffers hwrite hsame
  · exact ht.keep hload hprinted hsame

end Step

theorem printerTracks_of_course (hrun : Course (powerUp cps keyboard sink) h t) :
    PrinterTracks (charInterval cps) h t := by
  induction hrun with
  | start => exact printerTracks_powerUp
  | next _ hd ih => exact ih.next hd

/-! ## Offers -/

/-- A poll gives the line the waiting character when it is time, and nothing otherwise. -/
theorem printer_of_poll (hd : t.undergo (.poll now) = .ok t') :
    (t.Offers now → t'.printer = (t.printer.write t.printerChar).2) ∧
      (¬ t.Offers now → t'.printer = t.printer) := by
  obtain ⟨t₁, printed, t₂, typed, hprinter, hkeyboard, rfl⟩ := undergo_poll_eq_ok_iff.mp hd
  have hline : t₂.updateRequest.printer = t₁.printer := (samePrinter_serveKeyboard hkeyboard).line
  rw [hline]
  rcases servePrinter_cases hprinter with
    ⟨hno, rfl⟩ | ⟨hoffers, line, hwrite, rfl⟩ | ⟨hoffers, line, hwrite, rfl⟩
  · exact ⟨fun h => absurd h hno, fun _ => rfl⟩
  · exact ⟨fun _ => (congrArg Prod.snd hwrite).symm, fun h => absurd hoffers h⟩
  · exact ⟨fun _ => (congrArg Prod.snd hwrite).symm, fun h => absurd hoffers h⟩

/-- A refusal changes nothing but the line. -/
theorem samePrinter_of_refused {line : Printer} (hoffers : t.Offers now)
    (hwrite : t.printer.write t.printerChar = (.ok false, line))
    (hd : t.undergo (.poll now) = .ok t') : SamePrinter { t with printer := line } t' := by
  obtain ⟨t₁, printed, t₂, typed, hprinter, hkeyboard, rfl⟩ := undergo_poll_eq_ok_iff.mp hd
  have hsame := samePrinter_serveKeyboard hkeyboard
  rcases servePrinter_cases hprinter with
    ⟨hno, -⟩ | ⟨-, line', hwrite', rfl⟩ | ⟨-, line', hwrite', -⟩
  · exact absurd hoffers hno
  · rw [hwrite] at hwrite'
    cases hwrite'
    exact ⟨hsame.flag, hsame.full, hsame.char, hsame.due, hsame.interval, hsame.line⟩
  · rw [hwrite] at hwrite'
    cases hwrite'

/-- Until the next poll a character waits for the same time, and the one loaded last is it. -/
theorem waits_of_course (hrun : Course t h t') (hquiet : ∀ m ∈ h, m.deed.polls = false)
    (hfull : t.printerFull = true) :
    (∀ time, t'.Offers time ↔ t.printerDue ≤ time) ∧ t'.printer = t.printer ∧
      ((∀ m ∈ h, m.deed.load? = none) → t'.printerChar = t.printerChar) := by
  induction hrun with
  | start => exact ⟨fun time => ⟨And.right, fun hdue => ⟨hfull, hdue⟩⟩, rfl, fun _ => rfl⟩
  | @next h t₁ t₂ d _ hd ih =>
    obtain ⟨hpolls, hrest⟩ := List.forall_mem_cons.mp hquiet
    obtain ⟨hoffers, hline, hchar⟩ := ih hrest
    have hfull₁ : t₁.printerFull = true := ((hoffers t.printerDue).mpr (Nat.le_refl _)).1
    have hsame (hfull₂ : t₂.printerFull = true) (hdue : t₂.printerDue = t₁.printerDue)
        (time : Time) : t₂.Offers time ↔ t.printerDue ≤ time := by
      rw [← hoffers]
      unfold Offers
      rw [hfull₁, hfull₂, hdue]
    rcases printer_cases hd with
      ⟨b, hload, hloaded⟩ | ⟨_, _, rfl, -⟩ | ⟨-, line, -, hstays, hkept⟩
    · refine ⟨hsame hloaded.full hloaded.due, hloaded.line.trans hline, ?_⟩
      intro hnone
      have hm := (List.forall_mem_cons.mp hnone).1
      rw [hload] at hm
      cases hm
    · cases hpolls
    · refine ⟨hsame (hkept.full.trans hfull₁) hkept.due, ?_, ?_⟩
      · exact hkept.line.trans ((hstays hpolls).trans hline)
      · exact fun hnone => hkept.char.trans (hchar (List.forall_mem_cons.mp hnone).2)

/-! ## The printer alone -/

/-- What is accepted depends on the line alone. -/
theorem SamePrinter.accepted? {u' : Teletype} (h : SamePrinter t u) (h' : SamePrinter t' u') :
    Moment.accepted? ⟨d, u, u'⟩ = Moment.accepted? ⟨d, t, t'⟩ := by
  unfold Moment.accepted?
  dsimp only
  rw [h.line, h'.line]

/-- The printer's half of a poll reads nothing but the printer. -/
theorem SamePrinter.servePrinter (h : SamePrinter t u)
    (hd : t.servePrinter now = .ok (t', events)) :
    ∃ u', u.servePrinter now = .ok (u', events) ∧ SamePrinter t' u' ∧ u'.keyboard = u.keyboard := by
  unfold Teletype.servePrinter at hd ⊢
  rw [h.full, h.due, h.line, h.char]
  split_ifs at hd ⊢ with hoffers
  · split at hd
    · cases hd
      exact ⟨_, rfl, ⟨rfl, rfl, rfl, congrArg (now + ·) h.interval, h.interval, rfl⟩, rfl⟩
    · cases hd
      exact ⟨_, rfl, ⟨h.flag, rfl, rfl, rfl, h.interval, rfl⟩, rfl⟩
    · cases hd
  · cases hd
    exact ⟨_, rfl, h, rfl⟩

/-- A keyboard that is not connected has nothing to say. -/
theorem serveKeyboard_unconnected (hu : u.keyboard = .unconnected) :
    u.serveKeyboard now = .ok (u, []) := by
  have hsame : { u with keyboard := .unconnected } = u := by rw [← hu]
  unfold serveKeyboard
  rw [hu]
  split_ifs
  · exact congrArg (fun t => Except.ok (t, [])) hsame
  · rfl

/-- The printer takes no notice of what does not concern it, and of nothing but the printer. -/
theorem SamePrinter.undergo (h : SamePrinter t u) (hu : u.keyboard = .unconnected)
    (hd : t.undergo d = .ok t') :
    (d.concernsPrinter = true →
        ∃ u', u.undergo d = .ok u' ∧ SamePrinter t' u' ∧ u'.keyboard = .unconnected) ∧
      (d.concernsPrinter = false → SamePrinter t' u) := by
  cases d with
  | poll now =>
    obtain ⟨t₁, printed, t₂, typed, hprinter, hkeyboard, rfl⟩ := undergo_poll_eq_ok_iff.mp hd
    obtain ⟨u₁, hprinter', hsame, hu₁⟩ := h.servePrinter hprinter
    have hrest := samePrinter_serveKeyboard hkeyboard
    refine ⟨fun _ => ⟨u₁.updateRequest, ?_, ?_, hu₁.trans hu⟩, nofun⟩
    · exact undergo_poll_eq_ok_iff.mpr
        ⟨u₁, printed, u₁, [], hprinter', serveKeyboard_unconnected (hu₁.trans hu), rfl⟩
    · exact ⟨hsame.flag.trans hrest.flag.symm, hsame.full.trans hrest.full.symm,
        hsame.char.trans hrest.char.symm, hsame.due.trans hrest.due.symm,
        hsame.interval.trans hrest.interval.symm, hsame.line.trans hrest.line.symm⟩
  | type bytes =>
    cases hd
    exact ⟨nofun, fun _ => ⟨h.flag, h.full, h.char, h.due, h.interval, h.line⟩⟩
  | hangUp =>
    cases hd
    exact ⟨nofun, fun _ => ⟨h.flag, h.full, h.char, h.due, h.interval, h.line⟩⟩
  | transfer code ac =>
    cases hd
    unfold Deed.concernsPrinter Teletype.undergo iot
    dsimp only
    cases hcode : TeletypeCommand.ofCode? code with
    | none => exact ⟨nofun, fun _ => h⟩
    | some c =>
      cases c
      case tsf => exact ⟨fun _ => ⟨_, rfl, h, hu⟩, nofun⟩
      case tcf =>
        exact ⟨fun _ => ⟨_, rfl, ⟨rfl, h.full, h.char, h.due, h.interval, h.line⟩, hu⟩, nofun⟩
      case tpc =>
        exact ⟨fun _ => ⟨_, rfl, ⟨h.flag, rfl, rfl, h.due, h.interval, h.line⟩, hu⟩, nofun⟩
      case tls =>
        exact ⟨fun _ => ⟨_, rfl, ⟨rfl, rfl, rfl, h.due, h.interval, h.line⟩, hu⟩, nofun⟩
      all_goals exact ⟨nofun, fun _ => ⟨h.flag, h.full, h.char, h.due, h.interval, h.line⟩⟩

/-- The printer does the same without a keyboard, and without anything that happens to one. -/
theorem exists_course_of_printer (hrun : Course (powerUp cps keyboard sink) h t) :
    ∃ h' u, Course (powerUp cps .unconnected sink) h' u ∧
      h'.map Moment.deed = (h.map Moment.deed).filter Deed.concernsPrinter ∧
      acceptances h' = acceptances h ∧ SamePrinter t u := by
  have hstart : SamePrinter (powerUp cps keyboard sink) (powerUp cps .unconnected sink) :=
    ⟨rfl, rfl, rfl, rfl, rfl, rfl⟩
  have halone : ∃ h' u, Course (powerUp cps .unconnected sink) h' u ∧
      h'.map Moment.deed = (h.map Moment.deed).filter Deed.concernsPrinter ∧
      acceptances h' = acceptances h ∧ SamePrinter t u ∧ u.keyboard = .unconnected := by
    refine exists_course_alone (R := fun t u => SamePrinter t u ∧ u.keyboard = .unconnected) _ _
      ⟨hstart, rfl⟩ ?_ ?_ hrun
    · rintro t u t' d ⟨hsame, hu⟩ hd hc
      obtain ⟨u', hd', hsame', hu'⟩ := (hsame.undergo hu hd).1 hc
      exact ⟨u', hd', ⟨hsame', hu'⟩, hsame.accepted? hsame'⟩
    · rintro t u t' d ⟨hsame, hu⟩ hd hc
      have hsame' := (hsame.undergo hu hd).2 hc
      have hline := congrArg Printer.printed (hsame'.line.symm.trans hsame.line)
      exact ⟨⟨hsame', hu⟩, accepted?_eq_none hline⟩
  obtain ⟨h', u, hrun', hdeeds, hacceptances, hsame, -⟩ := halone
  exact ⟨h', u, hrun', hdeeds, hacceptances, hsame⟩

/-! ## Transport -/

theorem Course.of_append {later : List Moment} (hrun : Course start (later ++ h) t) :
    ∃ t₀, Course start h t₀ := by
  induction later generalizing t with
  | nil => exact ⟨t, hrun⟩
  | cons m later ih =>
    cases hrun with
    | next hrun _ => exact ih hrun

theorem Course.last {m : Moment} (hrun : Course start (m :: h) t) :
    Course start h m.before ∧ m.before.undergo m.deed = .ok m.after := by
  cases hrun with
  | next hrun hd => exact ⟨hrun, hd⟩

/-- What the line accepts is what was loaded last. -/
theorem lastLoad?_of_accepted {later earlier : List Moment} {m : Moment} {b : Byte}
    (hrun : Course (powerUp cps keyboard sink) (later ++ m :: earlier) t)
    (haccepted : m.accepted? = some (now, b)) : lastLoad? earlier = some b := by
  obtain ⟨t₀, hrun⟩ := hrun.of_append
  obtain ⟨hrun, hd⟩ := hrun.last
  obtain ⟨d, before, after⟩ := m
  have hkept {line : Printer} (hsame : after.printer = line)
      (hprinted : line.printed = before.printer.printed) : False := by
    rw [accepted?_eq_none ((congrArg Printer.printed hsame).trans hprinted)] at haccepted
    cases haccepted
  rcases printer_cases hd with
    ⟨_, -, hsame⟩ | ⟨_, line, rfl, hoffers, hwrite, hsame⟩ | ⟨-, line, hprinted, -, hsame⟩
  · exact (hkept hsame.line rfl).elim
  · rw [accepted?_eq_some ((congrArg Printer.printed hsame.line).trans
      (Printer.printed_write hwrite))] at haccepted
    cases haccepted
    exact (printerTracks_of_course hrun).loaded hoffers.1
  · exact (hkept hsame.line hprinted).elim

/-- How a teletype deals with the characters that it is given to print. -/
structure PrinterTransport (cps : Nat) (sink : Sink) (h : List Moment) (t : Teletype) : Prop where
  /-- Each load that found no character waiting has led to one acceptance, or is still to do so. -/
  conserved : (acceptances h).length + t.printerFull.toNat = h.countP Moment.loadsIdle
  /-- The line has what it accepted, and nothing else. -/
  line : t.printer.printed = ((acceptances h).map Prod.snd).reverse
  /-- An accepted byte is the one loaded last. -/
  latest : ∀ later m earlier now b, h = later ++ m :: earlier → m.accepted? = some (now, b) →
    lastLoad? earlier = some b
  /-- The printed bytes, with the one that waits, are the loaded ones in order, without those that
  were overwritten while they waited. -/
  order : t.printer.printed ++ t.pending = (kept h).reverse
  /-- If no load found a character waiting, they are all the loaded bytes. -/
  lossless : (∀ m ∈ h, m.deed.load?.isSome = true → m.before.printerFull = false) →
    t.printer.printed ++ t.pending = h.reverse.filterMap fun m => m.deed.load?
  /-- Acceptances keep the pace. -/
  paced : Paced (Time.ofMicros (1000000 / max cps 1)) ((acceptances h).map Prod.fst)
  /-- The flag is up if there has been an acceptance since TCF or TLS last cleared it. -/
  flag : t.printerFlag = true ↔
    ∃ m ∈ h.takeWhile (!·.deed.clearsPrinter), m.accepted?.isSome = true
  /-- A poll offers the waiting character if it is time, and otherwise leaves the line alone; it
  can only fail if a line fails. -/
  offered : ∀ now, (∀ t', t.undergo (.poll now) = .ok t' →
      (t.Offers now → t'.printer = (t.printer.write t.printerChar).2) ∧
        (¬ t.Offers now → t'.printer = t.printer)) ∧
    ((∀ e, (t.printer.write t.printerChar).1 ≠ .error e) → (∀ e, t.keyboard.read.1 ≠ .error e) →
      ∃ t', t.undergo (.poll now) = .ok t')
  /-- A refused offer changes nothing but the line, and is made again by the next poll, unless the
  clock has gone back to before the character was due, with the same character unless another has
  been loaded meanwhile. -/
  refused : ∀ now line t', t.Offers now → t.printer.write t.printerChar = (.ok false, line) →
    t.undergo (.poll now) = .ok t' →
    SamePrinter { t with printer := line } t' ∧
      ∀ between t'', Course t' between t'' → (∀ m ∈ between, m.deed.polls = false) →
        (∀ later, t''.Offers later ↔ t.printerDue ≤ later) ∧ t''.printer = line ∧
          ((∀ m ∈ between, m.deed.load? = none) → t''.printerChar = t.printerChar)
  /-- The keyboard has nothing to do with it: without one, and without anything that concerns one,
  the same characters are accepted at the same times, and the printer is the same. -/
  alone : ∃ h' u, Course (powerUp cps .unconnected sink) h' u ∧
    h'.map Moment.deed = (h.map Moment.deed).filter Deed.concernsPrinter ∧
    acceptances h' = acceptances h ∧ SamePrinter t u

/-- In every history of a teletype, of any speed and with any lines, that is polled at any times and
given any transfers while somebody types, the characters are printed as they should. -/
theorem printer_transport (hrun : Course (powerUp cps keyboard sink) h t) :
    PrinterTransport cps sink h t := by
  have ht := printerTracks_of_course hrun
  have horder : t.printer.printed ++ t.pending = (kept h).reverse := by
    have hpending : t.pending.reverse = t.pending := by
      unfold pending
      split_ifs <;> rfl
    rw [← ht.kept, List.reverse_append, hpending, ht.line]
  constructor
  · exact ht.count
  · exact ht.line
  · rintro later m earlier now b rfl haccepted
    exact lastLoad?_of_accepted hrun haccepted
  · exact horder
  · intro hidle
    rw [horder, kept_of_idle hidle, List.filterMap_reverse]
  · exact ht.paced
  · exact ht.flag
  · intro now
    refine ⟨fun t' hd => printer_of_poll hd, ?_⟩
    intro hprinter hkeyboard
    exact exists_undergo_poll now hprinter hkeyboard
  · intro now line t' hoffers hwrite hd
    have hsame := samePrinter_of_refused hoffers hwrite hd
    refine ⟨hsame, ?_⟩
    intro between t'' hbetween hquiet
    obtain ⟨hoffers', hline, hchar⟩ :=
      waits_of_course hbetween hquiet (hsame.full.trans hoffers.1)
    refine ⟨?_, hline.trans hsame.line, fun hnone => (hchar hnone).trans hsame.char⟩
    intro later
    rw [hoffers', hsame.due]
  · exact exists_course_of_printer hrun

/-- A character that is refused, overwritten by the next, and then printed by the poll after it. -/
theorem printer_transport_overwritten :
    ∃ h t, Course (powerUp 10 .unconnected (.stream [.error .wouldBlock] [])) h t ∧
      h.map Moment.deed =
        [.poll 7, .transfer 0o6044 0o302, .poll 0, .transfer 0o6046 0o301] ∧
      PrinterTransport 10 (.stream [.error .wouldBlock] []) h t ∧ t.printer.printed = [0o302] := by
  have hstart : Course (powerUp 10 .unconnected (.stream [.error .wouldBlock] [])) [] _ := .start
  have hrefused := (hstart.next (d := .transfer 0o6046 0o301) rfl).next (d := .poll 0) rfl
  have hrun := (hrefused.next (d := .transfer 0o6044 0o302) rfl).next (d := .poll 7) rfl
  exact ⟨_, _, hrun, rfl, printer_transport hrun, rfl⟩

end Pdp8.Teletype
