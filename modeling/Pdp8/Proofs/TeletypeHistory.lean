import Mathlib.Tactic.SplitIfs
import Pdp8.Teletype

/-!
# Pdp8.Proofs.TeletypeHistory — what can happen to a teletype

A teletype is polled at any times and given transfers, while somebody types at the other end of its
keyboard line, or goes away.  A `Course` lists these deeds, the latest first, each with the teletype
before and after it; what the printer line has taken, and what has come off the keyboard line, can
be seen there.  A poll is opened here once and for all: `servePrinter_cases` and
`serveKeyboard_cases` say what each half of it can do.
-/

namespace Pdp8

/-! ## Lines -/

namespace Keyboard

/-- The bytes that have been sent and not yet read. -/
def waiting : Keyboard → List Byte
  | .queue bytes _ => bytes
  | _ => []

/-- Of some bytes, those that can still be sent. -/
def takes (bytes : List Byte) : Keyboard → List Byte
  | .queue _ true => bytes
  | _ => []

/-- The receiving end of a queue. -/
def IsQueue (k : Keyboard) : Prop := ∃ bytes connected, k = .queue bytes connected

/-- A queue delivers its bytes in order, and never fails. -/
theorem IsQueue.read {k : Keyboard} (h : k.IsQueue) :
    (k.waiting = [] ∧ k.read = (.ok none, k)) ∨
      ∃ b line, k.read = (.ok (some b), line) ∧ k.waiting = b :: line.waiting ∧ line.IsQueue := by
  obtain ⟨bytes, connected, rfl⟩ := h
  cases bytes with
  | nil => exact .inl ⟨rfl, rfl⟩
  | cons b bytes => exact .inr ⟨b, .queue bytes connected, rfl, rfl, bytes, connected, rfl⟩

/-- It remains one, whatever happens at the other end. -/
theorem IsQueue.send {k : Keyboard} (h : k.IsQueue) (bytes : List Byte) :
    (k.send bytes).IsQueue := by
  obtain ⟨bytes', connected, rfl⟩ := h
  cases connected <;> exact ⟨_, _, rfl⟩

theorem IsQueue.hangUp {k : Keyboard} (h : k.IsQueue) : k.hangUp.IsQueue := by
  obtain ⟨bytes, connected, rfl⟩ := h
  exact ⟨_, _, rfl⟩

theorem waiting_send (bytes : List Byte) (k : Keyboard) :
    (k.send bytes).waiting = k.waiting ++ k.takes bytes := by
  unfold send
  split
  · rfl
  · rename_i hclosed
    cases k with
    | unconnected => rfl
    | script answers => rfl
    | queue bytes' connected =>
      cases connected with
      | true => exact absurd rfl (hclosed bytes')
      | false => exact (List.append_nil _).symm

theorem waiting_hangUp (k : Keyboard) : k.hangUp.waiting = k.waiting := by
  cases k <;> rfl

end Keyboard

namespace Printer

variable {p line : Printer} {b : Byte}

/-- The answer to an offer says whether the byte has been taken. -/
theorem printed_write {taken : Bool} (h : p.write b = (.ok taken, line)) :
    line.printed = p.printed ++ if taken then [b] else [] := by
  have hkept : p.printed = p.printed ++ [] := (List.append_nil _).symm
  unfold write at h
  split at h
  · cases h
    exact hkept
  · cases h
    exact printed_take b _ p
  · cases h
  · split at h
    · cases h
    · dsimp only at h
      split at h
      · cases h
        exact printed_take b _ p
      · cases h
    · cases h
      exact hkept
    · cases h
      exact hkept
    · cases h

end Printer

/-! ## Pacing -/

/-- When a line that has moved characters at some times, the latest first, may move one again. -/
def dueAfter (interval : Time) : List Time → Time
  | [] => 0
  | time :: _ => time + interval

/-- Any two of some times, the latest first, are an interval apart. -/
def Paced (interval : Time) (times : List Time) : Prop :=
  times.Pairwise fun later earlier => earlier + interval ≤ later

theorem Paced.cons {interval now : Time} {times : List Time} (h : Paced interval times)
    (hnow : dueAfter interval times ≤ now) : Paced interval (now :: times) := by
  refine List.pairwise_cons.mpr ⟨?_, h⟩
  cases times with
  | nil => exact nofun
  | cons latest times =>
    have hlatest : latest + interval ≤ now := hnow
    intro time htime
    rcases List.mem_cons.mp htime with rfl | htime
    · exact hlatest
    · calc
        time + interval ≤ latest := (List.pairwise_cons.mp h).1 time htime
        _ ≤ latest + interval := Nat.le_add_right _ _
        _ ≤ now := hlatest

/-! ## Deeds -/

namespace Teletype

/-- What is done to a teletype. -/
inductive Deed
  /-- A poll at some time. -/
  | poll (now : Time)
  /-- A transfer, with what AC holds. -/
  | transfer (code ac : Word)
  /-- Somebody types. -/
  | type (bytes : List Byte)
  /-- Whoever types goes away. -/
  | hangUp
  deriving DecidableEq, Repr

/-- The teletype after a deed. -/
def undergo (d : Deed) (t : Teletype) : Except Fault Teletype :=
  match d with
  | .poll now =>
    match t.poll now with
    | .error f => .error f
    | .ok (t, _) => .ok t
  | .transfer code ac => .ok (t.iot code ac).2.2
  | .type bytes => .ok (t.type bytes)
  | .hangUp => .ok t.hangUp

namespace Deed

/-- Whether a deed is a poll. -/
def polls : Deed → Bool
  | .poll _ => true
  | _ => false

/-- The command that a deed gives. -/
def command? : Deed → Option TeletypeCommand
  | .transfer code _ => TeletypeCommand.ofCode? code
  | _ => none

/-- The byte that TPC and TLS load, the low eight bits of AC. -/
def load? : Deed → Option Byte
  | .transfer code ac =>
    match TeletypeCommand.ofCode? code with
    | some .tpc => some (ac.setWidth 8)
    | some .tls => some (ac.setWidth 8)
    | _ => none
  | _ => none

/-- TCF and TLS, which clear the printer flag. -/
def clearsPrinter (d : Deed) : Bool := d.command? == some .tcf || d.command? == some .tls

/-- KCC and KRB, which clear the keyboard flag. -/
def clearsKeyboard (d : Deed) : Bool := d.command? == some .kcc || d.command? == some .krb

/-- Polls, and the transfers of the printer. -/
def concernsPrinter : Deed → Bool
  | .poll _ => true
  | .transfer code _ =>
    match TeletypeCommand.ofCode? code with
    | some .tsf => true
    | some .tcf => true
    | some .tpc => true
    | some .tls => true
    | _ => false
  | _ => false

/-- Polls, what goes on at the other end of the keyboard line, and the transfers of the keyboard,
with the one that enables interrupts. -/
def concernsKeyboard : Deed → Bool
  | .transfer code _ =>
    match TeletypeCommand.ofCode? code with
    | some .ksf => true
    | some .kcc => true
    | some .krs => true
    | some .kie => true
    | some .krb => true
    | _ => false
  | _ => true

end Deed

/-! ## Histories -/

/-- A deed, with the teletype before and after it. -/
structure Moment where
  deed : Deed
  before : Teletype
  after : Teletype

namespace Moment

/-- The byte that the printer line has taken in a poll, with the time. -/
def accepted? (m : Moment) : Option (Time × Byte) :=
  match m.deed, m.after.printer.printed.drop m.before.printer.printed.length with
  | .poll now, b :: _ => some (now, b)
  | _, _ => none

/-- The character that is in the buffer after a poll that has read a byte off the keyboard line,
with the time. -/
def latched? (m : Moment) : Option (Time × Byte) :=
  match m.deed with
  | .poll now =>
    if m.after.keyboard.waiting.length < m.before.keyboard.waiting.length then
      some (now, m.after.keyboardChar)
    else none
  | _ => none

/-- The bytes that have been sent along the keyboard line. -/
def sent (m : Moment) : List Byte :=
  match m.deed with
  | .type bytes => m.before.keyboard.takes bytes
  | _ => []

end Moment

/-- The teletypes that deeds lead to, each with its history, the latest moment first. -/
inductive Course (start : Teletype) : List Moment → Teletype → Prop
  | start : Course start [] start
  | next {h : List Moment} {t t' : Teletype} {d : Deed} :
    Course start h t → t.undergo d = .ok t' → Course start (⟨d, t, t'⟩ :: h) t'

/-- Something has happened since the last deed of some kind. -/
def HappenedSince (stops : Deed → Bool) (what : Moment → Option (Time × Byte)) (h : List Moment) :
    Prop :=
  ∃ m ∈ h.takeWhile fun m => !stops m.deed, (what m).isSome = true

section HappenedSince

variable {stops : Deed → Bool} {what : Moment → Option (Time × Byte)} {m : Moment} {h : List Moment}

theorem not_happenedSince_nil : ¬ HappenedSince stops what [] :=
  fun ⟨_, hm, _⟩ => absurd hm List.not_mem_nil

theorem happenedSince_cons_of_none (hnone : what m = none) :
    HappenedSince stops what (m :: h) ↔ stops m.deed = false ∧ HappenedSince stops what h := by
  unfold HappenedSince
  rw [List.takeWhile_cons]
  cases stops m.deed with
  | true => simp
  | false => simp [hnone]

theorem happenedSince_cons_of_some {event : Time × Byte} (hsome : what m = some event)
    (hgoes : stops m.deed = false) : HappenedSince stops what (m :: h) := by
  refine ⟨m, ?_, ?_⟩
  · rw [List.takeWhile_cons, hgoes]
    exact List.mem_cons_self
  · rw [hsome]
    rfl

end HappenedSince

/-- The bytes that the printer line has taken, with their times, the latest first. -/
def acceptances (h : List Moment) : List (Time × Byte) := h.filterMap Moment.accepted?

/-- The characters that have come off the keyboard line, with their times, the latest first. -/
def latches (h : List Moment) : List (Time × Byte) := h.filterMap Moment.latched?

/-- The bytes that have been sent along the keyboard line, in order. -/
def sentBytes (h : List Moment) : List Byte := h.reverse.flatMap Moment.sent

theorem sentBytes_cons (m : Moment) (h : List Moment) :
    sentBytes (m :: h) = sentBytes h ++ m.sent := by
  unfold sentBytes
  rw [List.reverse_cons, List.flatMap_append, List.flatMap_singleton]

/-! ## Polls -/

variable {t t' u : Teletype} {now : Time} {events : List Event}

/-- A character is waiting for the printer line, and it is time. -/
def Offers (now : Time) (t : Teletype) : Prop := t.printerFull = true ∧ t.printerDue ≤ now

/-- The printer's half of a poll: no offer, or one that is refused or accepted. -/
theorem servePrinter_cases (h : t.servePrinter now = .ok (t', events)) :
    (¬ t.Offers now ∧ t' = t) ∨
      (t.Offers now ∧ ∃ line, t.printer.write t.printerChar = (.ok false, line) ∧
        t' = { t with printer := line }) ∨
      (t.Offers now ∧ ∃ line, t.printer.write t.printerChar = (.ok true, line) ∧
        t' = { t with
          printerFlag := true
          printerFull := false
          printerDue := now + t.interval
          printer := line }) := by
  have hoffers : t.Offers now ↔ (t.printerFull && decide (t.printerDue ≤ now)) = true := by
    rw [Bool.and_eq_true, decide_eq_true_eq]
    exact Iff.rfl
  unfold servePrinter at h
  split_ifs at h with ho
  · split at h
    · rename_i line hw
      cases h
      exact .inr (.inr ⟨hoffers.mpr ho, line, hw, rfl⟩)
    · rename_i line hw
      cases h
      exact .inr (.inl ⟨hoffers.mpr ho, line, hw, rfl⟩)
    · cases h
  · cases h
    exact .inl ⟨fun h => ho (hoffers.mp h), rfl⟩

/-- The keyboard's half of a poll: no read, or one that finds nothing, or a character. -/
theorem serveKeyboard_cases (h : t.serveKeyboard now = .ok (t', events)) :
    (¬ t.keyboardDue ≤ now ∧ t' = t) ∨
      (t.keyboardDue ≤ now ∧ ∃ line, t.keyboard.read = (.ok none, line) ∧
        t' = { t with keyboard := line }) ∨
      (t.keyboardDue ≤ now ∧ ∃ b line, t.keyboard.read = (.ok (some b), line) ∧
        t' = { t with
          keyboardChar := b
          keyboardFlag := true
          keyboardDue := now + t.interval
          keyboard := line }) := by
  unfold serveKeyboard at h
  split_ifs at h with hdue
  · split at h
    · rename_i b line hr
      cases h
      exact .inr (.inr ⟨hdue, b, line, hr, rfl⟩)
    · rename_i line hr
      cases h
      exact .inr (.inl ⟨hdue, line, hr, rfl⟩)
    · cases h
  · cases h
    exact .inl ⟨hdue, rfl⟩

/-- A poll serves the printer, then the keyboard, and recomputes the request. -/
theorem undergo_poll_eq_ok_iff :
    t.undergo (.poll now) = .ok t' ↔
      ∃ t₁ printed t₂ typed, t.servePrinter now = .ok (t₁, printed) ∧
        t₁.serveKeyboard now = .ok (t₂, typed) ∧ t' = t₂.updateRequest := by
  unfold undergo poll
  dsimp only
  cases hp : t.servePrinter now with
  | error f => simp
  | ok r =>
    obtain ⟨t₁, printed⟩ := r
    cases hk : t₁.serveKeyboard now with
    | error f => simp [hk]
    | ok r' =>
      obtain ⟨t₂, typed⟩ := r'
      simp [hk, eq_comm]

/-! ## The two sides -/

/-- If one side takes no notice of what does not concern it, a history of a teletype with that side
alone shows the same. -/
theorem exists_course_alone {R : Teletype → Teletype → Prop} (concerns : Deed → Bool)
    (what : Moment → Option (Time × Byte)) {h : List Moment} (hstart : R t u)
    (hconcerned : ∀ {t u t' : Teletype} {d : Deed}, R t u → t.undergo d = .ok t' →
      concerns d = true → ∃ u', u.undergo d = .ok u' ∧ R t' u' ∧ what ⟨d, u, u'⟩ = what ⟨d, t, t'⟩)
    (hother : ∀ {t u t' : Teletype} {d : Deed}, R t u → t.undergo d = .ok t' →
      concerns d = false → R t' u ∧ what ⟨d, t, t'⟩ = none)
    (hrun : Course t h t') :
    ∃ h' u', Course u h' u' ∧ h'.map Moment.deed = (h.map Moment.deed).filter concerns ∧
      h'.filterMap what = h.filterMap what ∧ R t' u' := by
  induction hrun with
  | start => exact ⟨[], u, .start, rfl, rfl, hstart⟩
  | @next h t₁ t₂ d _ hd ih =>
    obtain ⟨h', u₁, hrun', hdeeds, hshown, hsame⟩ := ih
    rw [List.map_cons, List.filterMap_cons]
    cases hc : concerns d with
    | true =>
      obtain ⟨u₂, hd', hsame', heq⟩ := hconcerned hsame hd hc
      refine ⟨_, u₂, hrun'.next hd', ?_, ?_, hsame'⟩
      · rw [List.filter_cons_of_pos hc, List.map_cons, hdeeds]
      · rw [List.filterMap_cons, heq, hshown]
    | false =>
      obtain ⟨hsame', hnone⟩ := hother hsame hd hc
      refine ⟨h', u₁, hrun', ?_, ?_, hsame'⟩
      · rw [List.filter_cons_of_neg (Bool.eq_false_iff.mp hc), hdeeds]
      · rw [hnone, hshown]

/-- Two teletypes with the same printer. -/
structure SamePrinter (t u : Teletype) : Prop where
  flag : u.printerFlag = t.printerFlag
  full : u.printerFull = t.printerFull
  char : u.printerChar = t.printerChar
  due : u.printerDue = t.printerDue
  interval : u.interval = t.interval
  line : u.printer = t.printer

/-- Two teletypes with the same keyboard. -/
structure SameKeyboard (t u : Teletype) : Prop where
  flag : u.keyboardFlag = t.keyboardFlag
  char : u.keyboardChar = t.keyboardChar
  due : u.keyboardDue = t.keyboardDue
  interval : u.interval = t.interval
  line : u.keyboard = t.keyboard
  enable : u.interruptEnable = t.interruptEnable

theorem SamePrinter.refl (t : Teletype) : SamePrinter t t := ⟨rfl, rfl, rfl, rfl, rfl, rfl⟩

theorem SameKeyboard.refl (t : Teletype) : SameKeyboard t t := ⟨rfl, rfl, rfl, rfl, rfl, rfl⟩

/-- The keyboard's half of a poll leaves the printer alone. -/
theorem samePrinter_serveKeyboard (h : t.serveKeyboard now = .ok (t', events)) :
    SamePrinter t t' := by
  rcases serveKeyboard_cases h with ⟨-, rfl⟩ | ⟨-, line, -, rfl⟩ | ⟨-, b, line, -, rfl⟩
  · exact .refl _
  · exact ⟨rfl, rfl, rfl, rfl, rfl, rfl⟩
  · exact ⟨rfl, rfl, rfl, rfl, rfl, rfl⟩

/-- The printer's half leaves the keyboard alone. -/
theorem sameKeyboard_servePrinter (h : t.servePrinter now = .ok (t', events)) :
    SameKeyboard t t' := by
  rcases servePrinter_cases h with ⟨-, rfl⟩ | ⟨-, line, -, rfl⟩ | ⟨-, line, -, rfl⟩
  · exact .refl _
  · exact ⟨rfl, rfl, rfl, rfl, rfl, rfl⟩
  · exact ⟨rfl, rfl, rfl, rfl, rfl, rfl⟩

/-- A poll fails only if one of the lines does. -/
theorem exists_undergo_poll (now : Time)
    (hprinter : ∀ e, (t.printer.write t.printerChar).1 ≠ .error e)
    (hkeyboard : ∀ e, t.keyboard.read.1 ≠ .error e) : ∃ t', t.undergo (.poll now) = .ok t' := by
  have hp : ∃ r, t.servePrinter now = .ok r := by
    unfold servePrinter
    split_ifs
    · split
      · exact ⟨_, rfl⟩
      · exact ⟨_, rfl⟩
      · rename_i e line hw
        exact absurd (congrArg Prod.fst hw) (hprinter e)
    · exact ⟨_, rfl⟩
  obtain ⟨⟨t₁, printed⟩, hp⟩ := hp
  have hk : ∃ r, t₁.serveKeyboard now = .ok r := by
    rw [← (sameKeyboard_servePrinter hp).line] at hkeyboard
    unfold serveKeyboard
    split_ifs
    · split
      · exact ⟨_, rfl⟩
      · exact ⟨_, rfl⟩
      · rename_i e line hr
        exact absurd (congrArg Prod.fst hr) (hkeyboard e)
    · exact ⟨_, rfl⟩
  obtain ⟨⟨t₂, typed⟩, hk⟩ := hk
  exact ⟨_, undergo_poll_eq_ok_iff.mpr ⟨t₁, printed, t₂, typed, hp, hk, rfl⟩⟩

/-- A poll that fails has met a failure of one of the lines. -/
theorem poll_cases_of_error {f : Fault} (h : t.poll now = .error f) :
    (t.Offers now ∧ ∃ e, f = .printerLine e ∧ (t.printer.write t.printerChar).1 = .error e) ∨
      ∃ e, f = .keyboardLine e ∧ t.keyboard.read.1 = .error e := by
  unfold poll at h
  cases hprinter : t.servePrinter now with
  | error g =>
    rw [hprinter] at h
    cases h
    left
    unfold servePrinter at hprinter
    split_ifs at hprinter with hoffers
    rw [Bool.and_eq_true, decide_eq_true_eq] at hoffers
    refine ⟨hoffers, ?_⟩
    split at hprinter
    · cases hprinter
    · cases hprinter
    · rename_i e line hwrite
      cases hprinter
      exact ⟨e, rfl, congrArg Prod.fst hwrite⟩
  | ok r =>
    obtain ⟨t₁, printed⟩ := r
    have hline := (sameKeyboard_servePrinter hprinter).line
    rw [hprinter] at h
    dsimp only at h
    right
    cases hkeyboard : t₁.serveKeyboard now with
    | ok r =>
      rw [hkeyboard] at h
      cases h
    | error g =>
      rw [hkeyboard] at h
      cases h
      unfold serveKeyboard at hkeyboard
      split_ifs at hkeyboard
      rw [hline] at hkeyboard
      split at hkeyboard
      · cases hkeyboard
      · cases hkeyboard
      · rename_i e line hread
        cases hkeyboard
        exact ⟨e, rfl, congrArg Prod.fst hread⟩

end Teletype

end Pdp8
