import Mathlib.Data.List.Basic
import Pdp8.Proofs.PrinterTransport

/-!
# Pdp8.Proofs.BusyPrinter — a printer stream that is busy at times

A stream may refuse a write or a flush for the moment only.  A refused write is answered as it
should be: the line has not taken the byte, and it is offered again.  A refused flush comes when
the byte has been taken already, and makes the offer fail, although nothing is wrong with the
stream: these are all the failures there are (`write_of_passing`), and where no flush is refused
none is left.
-/

namespace Pdp8

/-- A refusal for the moment, which is no failure of the stream. -/
def StreamError.Passing (e : StreamError) : Prop := e = .wouldBlock ∨ e = .interrupted

namespace Printer

/-- The answers of a stream that takes every byte, and does every flush, when it is not busy. -/
structure BusyAtTimes (writes : List (Except StreamError Bool))
    (flushes : List (Except StreamError Unit)) : Prop where
  writes : ∀ r ∈ writes, r = .ok true ∨ ∃ e, r = .error e ∧ e.Passing
  flushes : ∀ r ∈ flushes, r = .ok () ∨ ∃ e, r = .error e ∧ e.Passing

/-- Bytes offered one after another, each with the answer to it, whatever the answers are. -/
def offerAll : List Byte → Printer → List (Byte × Except LineFailure Bool) × Printer
  | [], p => ([], p)
  | b :: bytes, p =>
    let (answer, p) := p.write b
    let (offers, p) := p.offerAll bytes
    ((b, answer) :: offers, p)

/-- The bytes that are not said to have been refused. -/
def unrefused (offers : List (Byte × Except LineFailure Bool)) : List Byte :=
  offers.filterMap fun
    | (_, .ok false) => none
    | (b, _) => some b

/-- The bytes that are said to have been taken. -/
def confirmed (offers : List (Byte × Except LineFailure Bool)) : List Byte :=
  offers.filterMap fun
    | (b, .ok true) => some b
    | _ => none

/-- The failures among the answers. -/
def failures (offers : List (Byte × Except LineFailure Bool)) : List LineFailure :=
  offers.filterMap fun
    | (_, .error f) => some f
    | (_, .ok _) => none

/-- The failures that refused flushes lead to. -/
def refusals (flushes : List (Except StreamError Unit)) : List LineFailure :=
  flushes.filterMap fun
    | .error e => some (.stream e)
    | .ok () => none

variable {writes : List (Except StreamError Bool)} {flushes : List (Except StreamError Unit)}
  {p : Printer} {b : Byte}

theorem BusyAtTimes.tail_writes (h : BusyAtTimes writes flushes) :
    BusyAtTimes writes.tail flushes :=
  ⟨fun r hr => h.writes r (List.mem_of_mem_tail hr), h.flushes⟩

theorem BusyAtTimes.tail_flushes (h : BusyAtTimes writes flushes) :
    BusyAtTimes writes flushes.tail :=
  ⟨h.writes, fun r hr => h.flushes r (List.mem_of_mem_tail hr)⟩

theorem BusyAtTimes.nextWrite (h : BusyAtTimes writes flushes) :
    nextWrite writes = .ok true ∨ ∃ e, nextWrite writes = .error e ∧ e.Passing := by
  cases writes with
  | nil => exact .inl rfl
  | cons r writes => exact h.writes r List.mem_cons_self

/-- The answer to an offer that the stream has taken. -/
def flushed : Except StreamError Unit → Except LineFailure Bool
  | .ok () => .ok true
  | .error e => .error (.stream e)

theorem flushed_nextFlush_eq_error {f : LineFailure} (h : flushed (nextFlush flushes) = .error f) :
    ∃ e, f = .stream e ∧ flushes.head? = some (.error e) := by
  cases flushes with
  | nil => cases h
  | cons r flushes =>
    cases r with
    | ok u => cases h
    | error e =>
      cases h
      exact ⟨e, rfl, rfl⟩

/-- An offer to a stream that is busy at times: it is refused, or else it is taken, and then the
answer is that of the flush. -/
theorem write_of_passing (h : BusyAtTimes writes flushes)
    (hsink : p.sink = .stream writes flushes) :
    p.write b = (.ok false, { p with sink := .stream writes.tail flushes }) ∨
      p.write b = (flushed (nextFlush flushes), p.take b (.stream writes.tail flushes.tail)) := by
  unfold write
  rw [hsink]
  dsimp only
  rcases h.nextWrite with hnext | ⟨e, hnext, rfl | rfl⟩
  · rw [hnext]
    right
    cases nextFlush flushes <;> rfl
  · rw [hnext]
    exact .inl rfl
  · rw [hnext]
    exact .inl rfl

/-- What has been taken is what has not been refused, and the failures are the refused flushes, of
as many as there are bytes taken.  The induction is on the bytes; each offer uses up a write, and
one that is taken uses up a flush as well. -/
theorem offerAll_of_busy (h : BusyAtTimes writes flushes) (hsink : p.sink = .stream writes flushes)
    (bytes : List Byte) :
    (p.offerAll bytes).2.printed = p.printed ++ unrefused (p.offerAll bytes).1 ∧
      failures (p.offerAll bytes).1 =
        refusals (flushes.take (unrefused (p.offerAll bytes).1).length) := by
  induction bytes generalizing p writes flushes with
  | nil => exact ⟨(List.append_nil _).symm, rfl⟩
  | cons b bytes ih =>
    rcases write_of_passing (b := b) h hsink with hrefused | htaken
    · have hrest := ih h.tail_writes (p := { p with sink := .stream writes.tail flushes }) rfl
      unfold offerAll
      rw [hrefused]
      exact hrest
    · obtain ⟨hprinted, hfailures⟩ :=
        ih h.tail_writes.tail_flushes (p := p.take b (.stream writes.tail flushes.tail)) rfl
      rw [printed_take, List.append_assoc] at hprinted
      unfold offerAll
      rw [htaken]
      dsimp only
      cases flushes with
      | nil =>
        rw [List.tail_nil, List.take_nil] at hfailures
        rw [List.take_nil]
        exact ⟨hprinted, hfailures⟩
      | cons r flushes =>
        cases r with
        | ok u => exact ⟨hprinted, hfailures⟩
        | error e => exact ⟨hprinted, congrArg (LineFailure.stream e :: ·) hfailures⟩

/-- Without failures, an offer is refused or confirmed. -/
theorem unrefused_eq_confirmed {offers : List (Byte × Except LineFailure Bool)}
    (h : failures offers = []) :
    (∀ offer ∈ offers, ∃ taken, offer.2 = .ok taken) ∧ unrefused offers = confirmed offers := by
  have hok : ∀ offer ∈ offers, ∃ taken, offer.2 = .ok taken := by
    rintro ⟨b, answer⟩ hoffer
    cases answer with
    | ok taken => exact ⟨taken, rfl⟩
    | error f =>
      have hnone := List.filterMap_eq_nil_iff.mp h _ hoffer
      cases hnone
  refine ⟨hok, List.filterMap_congr ?_⟩
  rintro ⟨b, answer⟩ hoffer
  obtain ⟨taken, rfl⟩ := hok _ hoffer
  cases taken <;> rfl

theorem refusals_of_forall {flushes : List (Except StreamError Unit)}
    (h : ∀ r ∈ flushes, r = .ok ()) : refusals flushes = [] := by
  refine List.filterMap_eq_nil_iff.mpr ?_
  intro r hr
  rw [h r hr]

end Printer

namespace Teletype

open Printer

variable {writes : List (Except StreamError Bool)} {flushes : List (Except StreamError Unit)}
  {cps : Nat} {keyboard : Keyboard} {h : List Moment} {t t' : Teletype} {d : Deed} {now : Time}
  {g : Fault}

/-! ## A teletype that prints on such a stream -/

/-- A deed offers the waiting character to the line, which does not fail, or leaves it alone. -/
theorem printer_of_undergo (hd : t.undergo d = .ok t') :
    t'.printer = t.printer ∨ ∃ taken, t.printer.write t.printerChar = (.ok taken, t'.printer) := by
  cases hpolls : d.polls with
  | false =>
    rcases printer_cases hd with
      ⟨b, -, hsame⟩ | ⟨now, line, rfl, -⟩ | ⟨-, line, -, hline, hsame⟩
    · exact .inl hsame.line
    · cases hpolls
    · exact .inl (hsame.line.trans (hline hpolls))
  | true =>
    cases d with
    | poll now =>
      obtain ⟨t₁, printed, t₂, typed, hprinter, hkeyboard, rfl⟩ := undergo_poll_eq_ok_iff.mp hd
      have hline : t₂.updateRequest.printer = t₁.printer :=
        (samePrinter_serveKeyboard hkeyboard).line
      rw [hline]
      rcases servePrinter_cases hprinter with
        ⟨-, rfl⟩ | ⟨-, line, hwrite, rfl⟩ | ⟨-, line, hwrite, rfl⟩
      · exact .inl rfl
      · exact .inr ⟨false, hwrite⟩
      · exact .inr ⟨true, hwrite⟩
    | transfer code ac => cases hpolls
    | type bytes => cases hpolls
    | hangUp => cases hpolls

theorem poll_eq_error_of_undergo (hd : t.undergo (.poll now) = .error g) :
    t.poll now = .error g := by
  unfold undergo at hd
  dsimp only at hd
  cases hpoll : t.poll now with
  | ok r =>
    rw [hpoll] at hd
    cases hd
  | error f =>
    rw [hpoll] at hd
    cases hd
    rfl

/-- What is left of the stream: as many flushes have been used up as there are bytes on the line. -/
def OnStream (writes : List (Except StreamError Bool)) (flushes : List (Except StreamError Unit))
    (p : Printer) : Prop :=
  ∃ n, p.sink = .stream (writes.drop n) (flushes.drop p.printed.length)

theorem busyAtTimes_drop (hbusy : BusyAtTimes writes flushes) (n m : Nat) :
    BusyAtTimes (writes.drop n) (flushes.drop m) :=
  ⟨fun r hr => hbusy.writes r (List.mem_of_mem_drop hr),
    fun r hr => hbusy.flushes r (List.mem_of_mem_drop hr)⟩

theorem onStream_of_write {p line : Printer} {b : Byte} {taken : Bool}
    (hbusy : BusyAtTimes writes flushes) (hp : OnStream writes flushes p)
    (hwrite : p.write b = (.ok taken, line)) : OnStream writes flushes line := by
  obtain ⟨n, hsink⟩ := hp
  rcases write_of_passing (b := b) (busyAtTimes_drop hbusy n _) hsink with hrefused | htaken
  · rw [hwrite] at hrefused
    cases hrefused
    exact ⟨n + 1, congrArg (Sink.stream · _) List.tail_drop⟩
  · rw [hwrite] at htaken
    have hline := congrArg Prod.snd htaken
    refine ⟨n + 1, ?_⟩
    rw [show line = _ from hline, printed_take, List.length_append]
    exact congrArg₂ Sink.stream List.tail_drop List.tail_drop

theorem onStream_of_course (hbusy : BusyAtTimes writes flushes)
    (hrun : Course (powerUp cps keyboard (.stream writes flushes)) h t) :
    OnStream writes flushes t.printer := by
  induction hrun with
  | start => exact ⟨0, rfl⟩
  | next _ hd ih =>
    rcases printer_of_undergo hd with hline | ⟨taken, hwrite⟩
    · rw [hline]
      exact ih
    · exact onStream_of_write hbusy ih hwrite

/-- The printer makes a poll fail only with a refused flush, when the byte has been taken. -/
theorem poll_error_of_course (hbusy : BusyAtTimes writes flushes)
    (hrun : Course (powerUp cps keyboard (.stream writes flushes)) h t)
    (hd : t.undergo (.poll now) = .error g) :
    (∃ f, g = .keyboardLine f ∧ t.keyboard.read.1 = .error f) ∨
      ∃ e, g = .printerLine (.stream e) ∧ t.Offers now ∧
        flushes[t.printer.printed.length]? = some (.error e) ∧
        (t.printer.write t.printerChar).2.printed = t.printer.printed ++ [t.printerChar] := by
  rcases poll_cases_of_error (poll_eq_error_of_undergo hd) with
    ⟨hoffers, f, rfl, hwrite⟩ | hkeyboard
  · right
    obtain ⟨n, hsink⟩ := onStream_of_course hbusy hrun
    rcases write_of_passing (b := t.printerChar) (busyAtTimes_drop hbusy n _) hsink with
      hrefused | htaken
    · rw [hrefused] at hwrite
      cases hwrite
    · rw [htaken] at hwrite ⊢
      obtain ⟨e, rfl, hrefused⟩ := flushed_nextFlush_eq_error hwrite
      rw [List.head?_drop] at hrefused
      exact ⟨e, rfl, hoffers, hrefused, printed_take _ _ _⟩
  · exact .inl hkeyboard

/-! ## What comes of it -/

/-- How a printer gets on with such a stream, by itself and in a teletype. -/
structure BusyTransport (writes : List (Except StreamError Bool))
    (flushes : List (Except StreamError Unit)) : Prop where
  /-- Whatever is offered, the stream has taken what was not refused, each byte once and in
  order. -/
  taken : ∀ bytes,
    ((ofSink (.stream writes flushes)).offerAll bytes).2.printed =
      unrefused ((ofSink (.stream writes flushes)).offerAll bytes).1
  /-- The offers that fail are those whose flush is refused, and each fails for that reason. -/
  failing : ∀ bytes,
    failures ((ofSink (.stream writes flushes)).offerAll bytes).1 =
      refusals (flushes.take ((ofSink (.stream writes flushes)).offerAll bytes).2.printed.length)
  /-- If no flush is refused, every offer has an answer, and the stream has taken what the answers
  say. -/
  reliable : (∀ r ∈ flushes, r = .ok ()) → ∀ bytes,
    (∀ offer ∈ ((ofSink (.stream writes flushes)).offerAll bytes).1,
        ∃ taken, offer.2 = .ok taken) ∧
      ((ofSink (.stream writes flushes)).offerAll bytes).2.printed =
        confirmed ((ofSink (.stream writes flushes)).offerAll bytes).1
  /-- A teletype has printed what it was to print, the latest first, up to the character that
  waits. -/
  order : ∀ cps keyboard h t, Course (powerUp cps keyboard (.stream writes flushes)) h t →
    t.pending ++ t.printer.printed.reverse = kept h
  /-- A poll of it that fails has met a failure of the keyboard line, or a refused flush: the
  character is on the line by then. -/
  aborted : ∀ cps keyboard h t now g, Course (powerUp cps keyboard (.stream writes flushes)) h t →
    t.undergo (.poll now) = .error g →
    (∃ f, g = .keyboardLine f ∧ t.keyboard.read.1 = .error f) ∨
      ∃ e, g = .printerLine (.stream e) ∧ t.Offers now ∧
        flushes[t.printer.printed.length]? = some (.error e) ∧
        (t.printer.write t.printerChar).2.printed = t.printer.printed ++ [t.printerChar]
  /-- If no flush is refused, the keyboard line is left. -/
  unaborted : (∀ r ∈ flushes, r = .ok ()) → ∀ cps keyboard h t now g,
    Course (powerUp cps keyboard (.stream writes flushes)) h t →
    t.undergo (.poll now) = .error g → ∃ f, g = .keyboardLine f ∧ t.keyboard.read.1 = .error f

/-- A stream that is busy at times gets the bytes in order and once, and it makes an offer, or a
poll, fail with nothing but a refused flush. -/
theorem busy_transport (hbusy : BusyAtTimes writes flushes) : BusyTransport writes flushes := by
  have hoffers (bytes : List Byte) := offerAll_of_busy (p := ofSink _) hbusy rfl bytes
  have htaken (bytes : List Byte) :
      ((ofSink (.stream writes flushes)).offerAll bytes).2.printed =
        unrefused ((ofSink (.stream writes flushes)).offerAll bytes).1 := (hoffers bytes).1
  have hfailing (bytes : List Byte) :
      failures ((ofSink (.stream writes flushes)).offerAll bytes).1 =
        refusals
          (flushes.take ((ofSink (.stream writes flushes)).offerAll bytes).2.printed.length) := by
    rw [htaken]
    exact (hoffers bytes).2
  constructor
  · exact htaken
  · exact hfailing
  · intro hflushes bytes
    have hnone := hfailing bytes
    rw [refusals_of_forall fun r hr => hflushes r (List.mem_of_mem_take hr)] at hnone
    obtain ⟨hanswers, hconfirmed⟩ := unrefused_eq_confirmed hnone
    exact ⟨hanswers, (htaken bytes).trans hconfirmed⟩
  · intro cps keyboard h t hrun
    have ht := printerTracks_of_course hrun
    rw [ht.line, List.reverse_reverse]
    exact ht.kept
  · intro cps keyboard h t now g hrun hd
    exact poll_error_of_course hbusy hrun hd
  · intro hflushes cps keyboard h t now g hrun hd
    rcases poll_error_of_course hbusy hrun hd with hkeyboard | ⟨e, -, -, hrefused, -⟩
    · exact hkeyboard
    · cases hflushes _ (List.mem_of_getElem? hrefused)

/-- Two characters are refused once each, and then taken. -/
theorem busy_transport_refused :
    BusyTransport [.error .wouldBlock, .ok true, .error .interrupted] [.ok ()] ∧
      (ofSink (.stream [.error .wouldBlock, .ok true, .error .interrupted] [.ok ()])).offerAll
          [0o301, 0o301, 0o302, 0o302] =
        ([(0o301, .ok false), (0o301, .ok true), (0o302, .ok false), (0o302, .ok true)],
          ⟨.stream [] [], [0o302, 0o301]⟩) := by
  refine ⟨busy_transport ⟨?_, ?_⟩, rfl⟩
  · intro r hr
    simp only [List.mem_cons, List.not_mem_nil, or_false] at hr
    rcases hr with rfl | rfl | rfl
    · exact .inr ⟨.wouldBlock, rfl, .inl rfl⟩
    · exact .inl rfl
    · exact .inr ⟨.interrupted, rfl, .inr rfl⟩
  · intro r hr
    exact .inl (List.mem_singleton.mp hr)

/-- A stream that is busy for the moment makes an offer fail when it has taken the byte, and stops
the teletype. -/
theorem busy_transport_aborted :
    BusyAtTimes [.ok true] [.error .wouldBlock] ∧
      (ofSink (.stream [.ok true] [.error .wouldBlock])).write 0o101 =
        (.error (.stream .wouldBlock), ⟨.stream [] [], [0o101]⟩) ∧
      ∃ h t, Course (powerUp 10 .unconnected (.stream [.ok true] [.error .wouldBlock])) h t ∧
        h.map Moment.deed = [.transfer 0o6046 0o101] ∧
        t.undergo (.poll 0) = .error (.printerLine (.stream .wouldBlock)) := by
  refine ⟨⟨?_, ?_⟩, rfl, ?_⟩
  · intro r hr
    exact .inl (List.mem_singleton.mp hr)
  · intro r hr
    exact .inr ⟨.wouldBlock, List.mem_singleton.mp hr, .inl rfl⟩
  · have hrun : Course (powerUp 10 .unconnected (.stream [.ok true] [.error .wouldBlock])) [] _ :=
      .start
    exact ⟨_, _, hrun.next (d := .transfer 0o6046 0o101) rfl, rfl, rfl⟩

end Teletype

end Pdp8
