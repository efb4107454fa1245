import Pdp8.Proofs.ImageGrammar

/-!
# Pdp8.Proofs.ImageLines — an image is read a line at a time

Reading stops at the first line that has a fault, and what stands on other lines has nothing to do
with it.  So a text of whole lines can be read by itself, and whatever follows it is read as if it
stood alone, only that its lines have higher numbers.  `IsFault` says what is wrong with a line in
terms of the grammar: what is reported is the first thing that a reader would stumble over.
-/

namespace Pdp8

namespace Text

variable {cs rest : List Char} {sep : Char → Bool}

/-! ## Whole lines -/

/-- No line is left open at the end of the text. -/
def WholeLines (cs : List Char) : Prop := cs = [] ∨ cs.getLast? = some '\n'

theorem length_splitWhen (sep : Char → Bool) (cs : List Char) :
    (splitWhen sep cs).length = cs.countP sep + 1 := by
  induction cs with
  | nil => rfl
  | cons c cs ih =>
    rw [splitWhen_cons, List.countP_cons]
    cases hc : sep c with
    | true => simp [ih]
    | false =>
      cases hparts : splitWhen sep cs with
      | nil => exact absurd hparts (splitWhen_ne_nil sep cs)
      | cons part parts =>
        rw [hparts] at ih
        simpa [consFirst] using ih

theorem length_lines (cs : List Char) : (lines cs).length = cs.count '\n' + 1 :=
  length_splitWhen _ cs

/-- Whole lines, and then the lines of what follows them. -/
theorem exists_lines_of_wholeLines (h : WholeLines cs) :
    ∃ ls, ls.length = cs.count '\n' ∧ ∀ rest, lines (cs ++ rest) = ls ++ lines rest := by
  rcases h with rfl | h
  · exact ⟨[], rfl, fun _ => rfl⟩
  · obtain ⟨init, rfl⟩ := List.getLast?_eq_some_iff.mp h
    refine ⟨lines init, ?_, fun rest => ?_⟩
    · rw [length_lines, List.count_append, List.count_singleton_self]
    · rw [List.append_assoc]
      exact splitWhen_append (by decide) init rest

/-- Where two texts meet, the last part of the one goes on with the first of the other. -/
theorem exists_splitWhen_append (sep : Char → Bool) (cs : List Char) :
    ∃ parts last, ∀ {rest first parts'}, splitWhen sep rest = first :: parts' →
      splitWhen sep (cs ++ rest) = parts ++ (last ++ first) :: parts' := by
  induction cs with
  | nil => exact ⟨[], [], fun h => h⟩
  | cons c cs ih =>
    obtain ⟨parts, last, ih⟩ := ih
    cases hc : sep c with
    | true =>
      refine ⟨[] :: parts, last, fun h => ?_⟩
      rw [List.cons_append, splitWhen_cons, hc, ih h]
      rfl
    | false =>
      cases parts with
      | nil =>
        refine ⟨[], c :: last, fun h => ?_⟩
        rw [List.cons_append, splitWhen_cons, hc, ih h]
        rfl
      | cons part parts =>
        refine ⟨(c :: part) :: parts, last, fun h => ?_⟩
        rw [List.cons_append, splitWhen_cons, hc, ih h]
        rfl

/-- What stands between a slash and the end of its line belongs to one line. -/
theorem exists_lines_of_slash (before after : List Char)
    (hafter : after = [] ∨ after.head? = some '\n') :
    ∃ earlier line later, ∀ comment, '\n' ∉ comment →
      lines (before ++ ('/' :: comment ++ after)) =
        earlier ++ (line ++ '/' :: comment) :: later := by
  obtain ⟨earlier, line, hjoin⟩ := exists_splitWhen_append (· == '\n') before
  have hslash {comment : List Char} (h : '\n' ∉ comment) : '\n' ∉ '/' :: comment := by
    rw [List.mem_cons, not_or]
    exact ⟨by decide, h⟩
  cases after with
  | nil =>
    refine ⟨earlier, line, [], fun comment hcomment => hjoin ?_⟩
    rw [List.append_nil]
    exact lines_of_notMem (hslash hcomment)
  | cons c after =>
    obtain rfl : c = '\n' := by simpa using hafter
    exact ⟨earlier, line, lines after,
      fun comment hcomment => hjoin (lines_append (hslash hcomment) after)⟩

end Text

namespace Image

open Octal Text

variable {cs line : List Char} {ls : List (List Char)} {n : Nat} {e : LineError}

/-! ## What is wrong with a line -/

/-- The number of a word. -/
def IsWord (t : List Char) : Prop := ∃ w : Word, Number true t w.toNat

/-- A line without its comment has a fault: there is no colon, or else no address before the first
colon, or else the leftmost part after it that is no word. -/
inductive IsFault : List Char → LineError → Prop
  | missingColon {cs : List Char} : ¬ Blanks cs → ':' ∉ cs → IsFault cs .missingColon
  | badAddress {address words : List Char} :
    ':' ∉ address → (∀ a, ¬ IsAddress true (trim address) a) →
    IsFault (address ++ ':' :: words) (.badAddress (String.ofList (trim address)))
  | badWord {address words t : List Char} {a : Address} {good more : List (List Char)} :
    ':' ∉ address → IsAddress true (trim address) a → tokens words = good ++ t :: more →
    (∀ g ∈ good, IsWord g) → ¬ IsWord t →
    IsFault (address ++ ':' :: words) (.badWord (String.ofList t))

theorem parseWord?_eq_none_iff {t : List Char} : parseWord? 12 t = none ↔ ¬ IsWord t := by
  unfold IsWord
  rw [Option.eq_none_iff_forall_ne_some, not_exists]
  simp only [ne_eq, parseWord?_eq_some_iff]

theorem parseChars?_eq_none_iff : Address.parseChars? cs = none ↔ ∀ a, ¬ IsAddress true cs a := by
  rw [Option.eq_none_iff_forall_ne_some]
  simp only [ne_eq, parseChars?_eq_some_iff]

/-- Of some parts that are not all words, the first that is none is reported. -/
theorem parseWords_eq_error_iff {ts : List (List Char)} :
    parseWords ts = .error e ↔
      ∃ good t more, ts = good ++ t :: more ∧ (∀ g ∈ good, IsWord g) ∧ ¬ IsWord t ∧
        e = .badWord (String.ofList t) := by
  induction ts with
  | nil => simp [parseWords]
  | cons t ts ih =>
    unfold parseWords
    cases hw : parseWord? 12 t with
    | none =>
      have ht := parseWord?_eq_none_iff.mp hw
      constructor
      · intro h
        cases h
        exact ⟨[], t, ts, rfl, nofun, ht, rfl⟩
      · rintro ⟨good, t', more, heq, hgood, -, rfl⟩
        cases good with
        | nil =>
          obtain ⟨rfl, rfl⟩ := List.cons.inj heq
          rfl
        | cons g good =>
          obtain ⟨rfl, rfl⟩ := List.cons.inj heq
          exact absurd (hgood t List.mem_cons_self) ht
    | some w =>
      have ht : IsWord t := ⟨w, parseWord?_eq_some_iff.mp hw⟩
      have hrest : (∃ good t' more, t :: ts = good ++ t' :: more ∧ (∀ g ∈ good, IsWord g) ∧
          ¬ IsWord t' ∧ e = .badWord (String.ofList t')) ↔ parseWords ts = .error e := by
        rw [ih]
        constructor
        · rintro ⟨good, t', more, heq, hgood, hbad, rfl⟩
          cases good with
          | nil =>
            obtain ⟨rfl, rfl⟩ := List.cons.inj heq
            exact absurd ht hbad
          | cons g good =>
            obtain ⟨rfl, rfl⟩ := List.cons.inj heq
            exact ⟨good, t', more, rfl, (List.forall_mem_cons.mp hgood).2, hbad, rfl⟩
        · rintro ⟨good, t', more, rfl, hgood, hbad, rfl⟩
          exact ⟨t :: good, t', more, rfl, List.forall_mem_cons.mpr ⟨ht, hgood⟩, hbad, rfl⟩
      rw [hrest]
      cases parseWords ts with
      | error e' => rfl
      | ok ws => simp

theorem parseContent_eq_error_iff (h : ¬ Blanks cs) :
    parseContent cs = .error e ↔ IsFault cs e := by
  unfold parseContent
  constructor
  · intro herror
    split at herror
    · rename_i hcut
      cases herror
      exact .missingColon h (cut?_eq_none_iff.mp hcut)
    · rename_i address words hcut
      obtain ⟨rfl, hcolon⟩ := cut?_eq_some_iff.mp hcut
      split at herror
      · rename_i haddress
        cases herror
        exact .badAddress hcolon (parseChars?_eq_none_iff.mp haddress)
      · rename_i a haddress
        split at herror
        · cases herror
        · rename_i e' hwords
          cases herror
          obtain ⟨good, t, more, heq, hgood, hbad, rfl⟩ := parseWords_eq_error_iff.mp hwords
          exact .badWord hcolon (parseChars?_eq_some_iff.mp haddress) heq hgood hbad
  · intro hfault
    cases hfault with
    | missingColon _ hcolon => rw [cut?_of_notMem hcolon]
    | badAddress hcolon haddress =>
      rw [cut?_append hcolon]
      dsimp only
      rw [parseChars?_eq_none_iff.mpr haddress]
    | badWord hcolon haddress heq hgood hbad =>
      rw [cut?_append hcolon]
      dsimp only
      rw [parseChars?_eq_some_iff.mpr haddress]
      dsimp only
      rw [parseWords_eq_error_iff.mpr ⟨_, _, _, heq, hgood, hbad, rfl⟩]

/-- White space has no fault. -/
theorem IsFault.not_blanks (h : IsFault cs e) : ¬ Blanks cs := by
  have hcolon {address words : List Char} : ¬ Blanks (address ++ ':' :: words) := fun hblank =>
    absurd (hblank ':' (List.mem_append_right _ List.mem_cons_self)) (by decide)
  cases h with
  | missingColon hblank _ => exact hblank
  | badAddress _ _ => exact hcolon
  | badWord _ _ _ _ _ => exact hcolon

theorem parseLine_eq_error_iff : parseLine line = .error e ↔ IsFault (beforeComment line) e := by
  have hcontent : content line = trim (beforeComment line) := rfl
  unfold parseLine
  rw [hcontent]
  cases htrim : trim (beforeComment line) with
  | nil =>
    have hblank := trim_eq_nil_iff.mp htrim
    exact ⟨nofun, fun h => absurd hblank h.not_blanks⟩
  | cons c cs =>
    have hblank : ¬ Blanks (beforeComment line) := by
      rw [← trim_eq_nil_iff, htrim]
      exact List.cons_ne_nil c cs
    dsimp only
    rw [← htrim, parseContent_trim, ← parseContent_eq_error_iff hblank]
    cases parseContent (beforeComment line) with
    | error e' => simp
    | ok block => simp

/-! ## Line after line -/

theorem parseLines_cons (n : Nat) (line : List Char) (ls : List (List Char)) :
    parseLines n (line :: ls) =
      match parseLine line with
      | .error e => .error ⟨n, e⟩
      | .ok block =>
        match parseLines (n + 1) ls with
        | .error e => .error e
        | .ok blocks => .ok (block.toList ++ blocks) := rfl

/-- Some lines, and then some more. -/
theorem parseLines_append (n : Nat) (ls ls' : List (List Char)) :
    parseLines n (ls ++ ls') =
      match parseLines n ls with
      | .error e => .error e
      | .ok blocks =>
        match parseLines (n + ls.length) ls' with
        | .error e => .error e
        | .ok blocks' => .ok (blocks ++ blocks') := by
  induction ls generalizing n with
  | nil =>
    rw [List.nil_append, List.length_nil, Nat.add_zero]
    cases parseLines n ls' <;> rfl
  | cons line ls ih =>
    rw [List.cons_append, parseLines_cons, parseLines_cons, ih, List.length_cons,
      Nat.add_right_comm n 1, Nat.add_assoc]
    cases parseLine line with
    | error e => rfl
    | ok block =>
      cases parseLines (n + 1) ls with
      | error e => rfl
      | ok blocks =>
        cases parseLines (n + (ls.length + 1)) ls' with
        | error e => rfl
        | ok blocks' => simp

/-- The lines are numbered from that of the first. -/
theorem parseLines_add (n k : Nat) (ls : List (List Char)) :
    parseLines (n + k) ls = (parseLines n ls).mapError fun e => ⟨e.line + k, e.error⟩ := by
  induction ls generalizing n with
  | nil => rfl
  | cons line ls ih =>
    rw [parseLines_cons, parseLines_cons, Nat.add_right_comm, ih]
    cases parseLine line with
    | error e => rfl
    | ok block => cases parseLines (n + 1) ls <;> rfl

/-- What is reported is the fault of the first line that has one. -/
theorem parseLines_eq_error_iff {e : ImageError} :
    parseLines n ls = .error e ↔
      ∃ earlier line later, ls = earlier ++ line :: later ∧ e.line = n + earlier.length ∧
        (∀ l ∈ earlier, ∃ o, IsLine true l o) ∧ IsFault (beforeComment line) e.error := by
  induction ls generalizing n with
  | nil => simp [parseLines]
  | cons line ls ih =>
    rw [parseLines_cons]
    constructor
    · intro h
      cases hline : parseLine line with
      | error e' =>
        rw [hline] at h
        cases h
        exact ⟨[], line, ls, rfl, rfl, nofun, parseLine_eq_error_iff.mp hline⟩
      | ok o =>
        rw [hline] at h
        cases hrest : parseLines (n + 1) ls with
        | error e' =>
          rw [hrest] at h
          cases h
          obtain ⟨earlier, faulty, later, rfl, hnumber, hearlier, hfault⟩ := ih.mp hrest
          refine ⟨line :: earlier, faulty, later, rfl, ?_, ?_, hfault⟩
          · rw [hnumber, List.length_cons, Nat.add_assoc, Nat.add_comm 1]
          · exact List.forall_mem_cons.mpr ⟨⟨o, parseLine_eq_ok_iff.mp hline⟩, hearlier⟩
        | ok blocks =>
          rw [hrest] at h
          cases h
    · rintro ⟨earlier, faulty, later, heq, hnumber, hearlier, hfault⟩
      cases earlier with
      | nil =>
        obtain ⟨rfl, rfl⟩ := List.cons.inj heq
        rw [parseLine_eq_error_iff.mpr hfault, ← show e.line = n from hnumber]
      | cons l earlier =>
        obtain ⟨rfl, hls⟩ := List.cons.inj heq
        obtain ⟨⟨o, hline⟩, hearlier⟩ := List.forall_mem_cons.mp hearlier
        have hrest : parseLines (n + 1) ls = .error e := by
          refine ih.mpr ⟨earlier, faulty, later, hls, ?_, hearlier, hfault⟩
          rw [hnumber, List.length_cons, Nat.add_assoc, Nat.add_comm 1]
        rw [parseLine_eq_ok_iff.mpr hline, hrest]

/-- Whole lines, and whatever follows them. -/
theorem parse_append {t₁ : String} (h : WholeLines t₁.toList) (t₂ : String) :
    parse (t₁ ++ t₂) =
      match parse t₁ with
      | .error e => .error e
      | .ok blocks =>
        match (parse t₂).mapError fun e => ⟨e.line + t₁.toList.count '\n', e.error⟩ with
        | .error e => .error e
        | .ok blocks' => .ok (blocks ++ blocks') := by
  obtain ⟨ls, hlength, hlines⟩ := exists_lines_of_wholeLines h
  -- the last line of the first text is empty, and gives nothing
  have halone : parse t₁ = parseLines 1 ls := by
    have hfirst := hlines []
    rw [List.append_nil] at hfirst
    unfold parse parseChars
    rw [hfirst, parseLines_append]
    cases parseLines 1 ls with
    | error e => rfl
    | ok blocks => exact congrArg Except.ok (List.append_nil blocks)
  have hboth : parse (t₁ ++ t₂) = parseLines 1 (ls ++ lines t₂.toList) := by
    unfold parse parseChars
    rw [String.toList_append, hlines]
  rw [halone, hboth, parseLines_append, parseLines_add, hlength]
  rfl

/-! ## Comments -/

/-- What stands after a slash is nothing to its line. -/
theorem parseLine_comment (line comment comment' : List Char) :
    parseLine (line ++ '/' :: comment) = parseLine (line ++ '/' :: comment') := by
  have hcontent : content (line ++ '/' :: comment) = content (line ++ '/' :: comment') := by
    unfold content
    rw [List.takeWhile_append, List.takeWhile_append]
    rfl
  unfold parseLine
  rw [hcontent]

theorem parse_comment {before comment comment' after : String} (h : '\n' ∉ comment.toList)
    (h' : '\n' ∉ comment'.toList) (hafter : after = "" ∨ after.toList.head? = some '\n') :
    parse (before ++ "/" ++ comment ++ after) = parse (before ++ "/" ++ comment' ++ after) := by
  have hafter' : after.toList = [] ∨ after.toList.head? = some '\n' :=
    hafter.imp_left fun he => by rw [he]; rfl
  obtain ⟨earlier, line, later, hlines⟩ :=
    exists_lines_of_slash before.toList after.toList hafter'
  have hparse {comment : String} (h : '\n' ∉ comment.toList) :
      parse (before ++ "/" ++ comment ++ after) =
        parseLines 1 (earlier ++ (line ++ '/' :: comment.toList) :: later) := by
    unfold parse parseChars
    rw [← hlines _ h]
    simp
  rw [hparse h, hparse h', parseLines_append, parseLines_append, parseLines_cons, parseLines_cons,
    parseLine_comment]

/-- An image is read line by line.  An error among whole lines is that of everything that begins
with them.  Whole lines that can be read give their blocks, and then comes what follows them, as if
it stood alone: its blocks, or its error, with the number of the line counted from the beginning.
What is reported at all is the fault of the first line that has one.  And nothing that stands
between a slash and the end of its line makes a difference. -/
theorem read_by_lines :
    (∀ t₁ t₂ : String, WholeLines t₁.toList →
      (∀ e, parse t₁ = .error e → parse (t₁ ++ t₂) = .error e) ∧
      (∀ b₁ b₂, parse t₁ = .ok b₁ → parse t₂ = .ok b₂ → parse (t₁ ++ t₂) = .ok (b₁ ++ b₂)) ∧
      ∀ b₁ n kind, parse t₁ = .ok b₁ → parse t₂ = .error ⟨n, kind⟩ →
        parse (t₁ ++ t₂) = .error ⟨n + t₁.toList.count '\n', kind⟩) ∧
    (∀ (text : String) n kind, parse text = .error ⟨n, kind⟩ ↔
      ∃ earlier line later, lines text.toList = earlier ++ line :: later ∧
        n = earlier.length + 1 ∧ (∀ l ∈ earlier, ∃ o, IsLine true l o) ∧
        IsFault (beforeComment line) kind) ∧
    ∀ before comment comment' after : String, '\n' ∉ comment.toList → '\n' ∉ comment'.toList →
      after = "" ∨ after.toList.head? = some '\n' →
      parse (before ++ "/" ++ comment ++ after) = parse (before ++ "/" ++ comment' ++ after) := by
  refine ⟨?_, ?_, fun _ _ _ _ => parse_comment⟩
  · intro t₁ t₂ h
    refine ⟨?_, ?_, ?_⟩
    · intro e he
      rw [parse_append h, he]
    · intro b₁ b₂ h₁ h₂
      rw [parse_append h, h₁, h₂]
      rfl
    · intro b₁ n kind h₁ h₂
      rw [parse_append h, h₁, h₂]
      rfl
  · intro text n kind
    unfold parse parseChars
    rw [parseLines_eq_error_iff]
    simp only [Nat.add_comm 1]

/-- Two whole lines, one of them with a comment, and then a line with two faults. -/
theorem read_by_lines_second_fault :
    let t₁ := "0200: 7402 / halt\n\n"
    let t₂ := "/ more\n0300: 7200 08 10000\n"
    WholeLines t₁.toList ∧ parse t₁ = .ok [⟨⟨0, 0o200⟩, [0o7402]⟩] ∧
      parse t₂ = .error ⟨2, .badWord "08"⟩ ∧ parse (t₁ ++ t₂) = .error ⟨4, .badWord "08"⟩ ∧
      parse ("0200: 7402 " ++ "/" ++ "" ++ "\n\n") = .ok [⟨⟨0, 0o200⟩, [0o7402]⟩] := by
  intro t₁ t₂
  obtain ⟨happend, -, hcomment⟩ := read_by_lines
  have hwhole : WholeLines t₁.toList := .inr (by decide)
  have h₁ : parse t₁ = .ok [⟨⟨0, 0o200⟩, [0o7402]⟩] := by decide
  have h₂ : parse t₂ = .error ⟨2, .badWord "08"⟩ := by decide
  have herror := (happend t₁ t₂ hwhole).2.2 _ _ _ h₁ h₂
  have hcount : t₁.toList.count '\n' = 2 := by decide
  rw [hcount] at herror
  have hsame := hcomment "0200: 7402 " "" " halt" "\n\n" (by decide) (by decide)
    (.inr (by decide))
  exact ⟨hwhole, h₁, h₂, herror, hsame.trans h₁⟩

end Image

end Pdp8
