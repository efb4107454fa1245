import Mathlib.Data.List.Forall2
import Pdp8.Image
import Pdp8.Proofs.OctalNumerals
import Pdp8.Proofs.TextParts

/-!
# Pdp8.Proofs.ImageGrammar — the texts that are core images

The grammar of images, from numbers up to whole texts, and what each text in it stands for.  Reading
accepts exactly this grammar if numbers may carry a plus sign.  The format as it is documented has
none: it is the same grammar without signs, and differs from what is accepted only in texts that
have a plus sign outside their comments (`reads_signed_grammar`).
-/

namespace Pdp8.Image

open Octal Text

/-! ## The grammar -/

section Grammar

variable (signed : Bool)

/-- The number of a location, or that of a field, a point and that of a location in it. -/
inductive IsAddress : List Char → Address → Prop
  | location {cs : List Char} {a : Word} : Number signed cs a.toNat → IsAddress cs ⟨0, a⟩
  | inField {f cs : List Char} {field : FieldNumber} {a : Word} :
    Number signed f field.toNat → Number signed cs a.toNat → IsAddress (f ++ '.' :: cs) ⟨field, a⟩

/-- Numbers of words, with white space between them and perhaps around them. -/
inductive IsWords : List Char → List Word → Prop
  | nil {gap : List Char} : Blanks gap → IsWords gap []
  | cons {gap number rest : List Char} {w : Word} {ws : List Word} :
    Blanks gap → Number signed number w.toNat → EndsWord rest → IsWords rest ws →
    IsWords (gap ++ (number ++ rest)) (w :: ws)

/-- An address, a colon and words. -/
inductive IsBlock : List Char → Block → Prop
  | intro {gap address gap' words : List Char} {start : Address} {ws : List Word} :
    Blanks gap → IsAddress signed address start → Blanks gap' → IsWords signed words ws →
    IsBlock (gap ++ address ++ gap' ++ ':' :: words) ⟨start, ws⟩

/-- A slash and anything after it, or nothing. -/
def IsComment (cs : List Char) : Prop := cs = [] ∨ ∃ text, cs = '/' :: text

/-- A line: white space or a block, and perhaps a comment. -/
inductive IsLine : List Char → Option Block → Prop
  | empty {gap comment : List Char} : Blanks gap → IsComment comment → IsLine (gap ++ comment) none
  | block {cs comment : List Char} {b : Block} :
    IsBlock signed cs b → IsComment comment → IsLine (cs ++ comment) (some b)

/-- An image: lines, which are ended by newlines but for the last. -/
inductive IsImage : List Char → List Block → Prop
  | last {line : List Char} {o : Option Block} :
    IsLine signed line o → '\n' ∉ line → IsImage line o.toList
  | line {line rest : List Char} {o : Option Block} {blocks : List Block} :
    IsLine signed line o → '\n' ∉ line → IsImage rest blocks →
    IsImage (line ++ '\n' :: rest) (o.toList ++ blocks)

end Grammar

variable {signed : Bool} {cs : List Char}

/-! ## Numbers, addresses and words -/

/-- White space and the separators are no part of a number. -/
theorem isBlank_of_number {n : Nat} (h : Number signed cs n) : ∀ c ∈ cs, isBlank c = false :=
  h.forall_mem (forall_of_all (by decide))

theorem IsAddress.forall_mem {a : Address} (h : IsAddress signed cs a) {P : Char → Prop}
    (hP : ∀ c ∈ ['.', '+', '0', '1', '2', '3', '4', '5', '6', '7'], P c) : ∀ c ∈ cs, P c := by
  obtain ⟨hpoint, hnumber⟩ := List.forall_mem_cons.mp hP
  cases h with
  | location h => exact h.forall_mem hnumber
  | inField hf h =>
    intro c hc
    rcases List.mem_append.mp hc with hc | hc
    · exact hf.forall_mem hnumber c hc
    · rcases List.mem_cons.mp hc with rfl | hc
      · exact hpoint
      · exact h.forall_mem hnumber c hc

theorem parseChars?_eq_some_iff {a : Address} :
    Address.parseChars? cs = some a ↔ IsAddress true cs a := by
  constructor
  · intro h
    unfold Address.parseChars? at h
    split at h
    · rename_i f l hcut
      obtain ⟨field, hf, h⟩ := Option.bind_eq_some_iff.mp h
      obtain ⟨a, ha, rfl⟩ := Option.map_eq_some_iff.mp h
      rw [(cut?_eq_some_iff.mp hcut).1]
      exact .inField (parseWord?_eq_some_iff.mp hf) (parseWord?_eq_some_iff.mp ha)
    · obtain ⟨a, ha, rfl⟩ := Option.map_eq_some_iff.mp h
      exact .location (parseWord?_eq_some_iff.mp ha)
  · intro h
    unfold Address.parseChars?
    cases h with
    | location h =>
      rw [cut?_of_notMem (h.notMem (by decide))]
      exact congrArg (Option.map _) (parseWord?_eq_some_iff.mpr h)
    | inField hf h =>
      rw [cut?_append (hf.notMem (by decide))]
      dsimp only
      rw [parseWord?_eq_some_iff.mpr hf, parseWord?_eq_some_iff.mpr h]
      rfl

theorem parseWords_eq_ok_iff {ts : List (List Char)} {ws : List Word} :
    parseWords ts = .ok ws ↔ List.Forall₂ (fun t w => Number true t w.toNat) ts ws := by
  induction ts generalizing ws with
  | nil =>
    rw [List.forall₂_nil_left_iff]
    exact ⟨fun h => by cases h; rfl, fun h => by rw [h]; rfl⟩
  | cons t ts ih =>
    rw [List.forall₂_cons_left_iff]
    unfold parseWords
    constructor
    · intro h
      split at h
      · cases h
      · rename_i w hw
        split at h
        · rename_i ws' hws
          cases h
          exact ⟨w, ws', parseWord?_eq_some_iff.mp hw, ih.mp hws, rfl⟩
        · cases h
    · rintro ⟨w, ws', hw, hws, rfl⟩
      rw [parseWord?_eq_some_iff.mpr hw]
      dsimp only
      rw [ih.mpr hws]

/-- Words are the tokens of their text. -/
theorem isWords_iff {ws : List Word} :
    IsWords signed cs ws ↔
      List.Forall₂ (fun t w => Number signed t w.toNat) (tokens cs) ws := by
  constructor
  · intro h
    induction h with
    | nil hgap =>
      rw [tokens_of_blanks hgap]
      exact .nil
    | cons hgap hnumber hrest _ ih =>
      rw [tokens_blanks_append hgap,
        tokens_word_append hnumber.ne_nil (isBlank_of_number hnumber) hrest]
      exact .cons hnumber ih
  · intro h
    -- on the length of the text, one word at a time
    induction hn : cs.length using Nat.strongRecOn generalizing cs ws with
    | ind n ih =>
      by_cases hblank : Blanks cs
      · rw [tokens_of_blanks hblank, List.forall₂_nil_left_iff] at h
        rw [h]
        exact .nil hblank
      · obtain ⟨gap, t, rest, rfl, hgap, ht, hword, hrest⟩ := exists_word hblank
        rw [tokens_blanks_append hgap, tokens_word_append ht hword hrest,
          List.forall₂_cons_left_iff] at h
        obtain ⟨w, ws', hw, hws, rfl⟩ := h
        have hlt : rest.length < n := by
          have := List.length_pos_iff.mpr ht
          simp only [List.length_append] at hn
          omega
        exact .cons hgap hw hrest (ih _ hlt hws rfl)

/-! ## Blocks -/

/-- White space around the content of a line is nothing to it. -/
theorem parseContent_append_blanks {gap gap' : List Char} (h : Blanks gap) (h' : Blanks gap')
    (cs : List Char) : parseContent (gap ++ cs ++ gap') = parseContent cs := by
  have hgap : ':' ∉ gap := h.notMem (by decide)
  have hgap' : ':' ∉ gap' := h'.notMem (by decide)
  unfold parseContent
  cases hcut : cut? ':' cs with
  | none =>
    have hnone : cut? ':' (gap ++ cs ++ gap') = none := by
      rw [cut?_eq_none_iff] at hcut ⊢
      simp only [List.mem_append, not_or]
      exact ⟨⟨hgap, hcut⟩, hgap'⟩
    rw [hnone]
  | some parts =>
    obtain ⟨address, words⟩ := parts
    obtain ⟨rfl, hnot⟩ := cut?_eq_some_iff.mp hcut
    have hsome : cut? ':' (gap ++ (address ++ ':' :: words) ++ gap') =
        some (gap ++ address, words ++ gap') := by
      rw [cut?_eq_some_iff]
      simp only [List.append_assoc, List.cons_append, List.mem_append, not_or, true_and]
      exact ⟨hgap, hnot⟩
    rw [hsome]
    dsimp only
    rw [trim_blanks_append h, tokens_append_blanks h']

theorem parseContent_trim (cs : List Char) : parseContent (trim cs) = parseContent cs := by
  obtain ⟨gap, gap', heq, hgap, hgap'⟩ := exists_trim cs
  rw [← parseContent_append_blanks hgap hgap' (trim cs), ← heq]

theorem parseContent_eq_ok_iff {b : Block} : parseContent cs = .ok b ↔ IsBlock true cs b := by
  constructor
  · intro h
    unfold parseContent at h
    split at h
    · cases h
    · rename_i address words hcut
      split at h
      · cases h
      · rename_i start hstart
        split at h
        · rename_i ws hws
          cases h
          obtain ⟨gap, gap', haddress, hgap, hgap'⟩ := exists_trim address
          have hblock := IsBlock.intro hgap (parseChars?_eq_some_iff.mp hstart) hgap'
            (isWords_iff.mpr (parseWords_eq_ok_iff.mp hws))
          rw [← haddress] at hblock
          rw [(cut?_eq_some_iff.mp hcut).1]
          exact hblock
        · cases h
  · rintro ⟨hgap, haddress, hgap', hwords⟩
    rename_i gap address gap' words start ws
    have hcolon : ':' ∉ gap ++ address ++ gap' := by
      simp only [List.mem_append, not_or]
      exact ⟨⟨hgap.notMem (by decide),
        fun hmem => haddress.forall_mem (P := (· ≠ ':')) (forall_of_all (by decide)) ':' hmem rfl⟩,
        hgap'.notMem (by decide)⟩
    have htrim : trim (gap ++ address ++ gap') = address := by
      rw [trim_append_blanks hgap', trim_blanks_append hgap]
      exact trim_of_word (haddress.forall_mem (forall_of_all (by decide)))
    unfold parseContent
    rw [cut?_append hcolon]
    dsimp only
    rw [htrim, parseChars?_eq_some_iff.mpr haddress]
    dsimp only
    rw [parseWords_eq_ok_iff.mpr (isWords_iff.mp hwords)]

/-- A block is not white space. -/
theorem IsBlock.not_blanks {b : Block} (h : IsBlock signed cs b) : ¬ Blanks cs := by
  intro hblank
  obtain ⟨-, -, -, -⟩ := h
  have hcolon := hblank ':' (List.mem_append_right _ List.mem_cons_self)
  exact absurd hcolon (by decide)

/-! ## Lines -/

/-- What stands before the comment of a line. -/
def beforeComment (line : List Char) : List Char := line.takeWhile (· != '/')

theorem exists_comment (line : List Char) :
    ∃ comment, line = beforeComment line ++ comment ∧ IsComment comment := by
  refine ⟨line.dropWhile (· != '/'), List.takeWhile_append_dropWhile.symm, ?_⟩
  cases hdrop : line.dropWhile (· != '/') with
  | nil => exact .inl rfl
  | cons c text =>
    have hhead := List.head?_dropWhile_not (· != '/') line
    rw [hdrop] at hhead
    have hc : c = '/' := by simpa using hhead
    exact .inr ⟨text, by rw [hc]⟩

theorem beforeComment_append {before comment : List Char} (h : '/' ∉ before)
    (hcomment : IsComment comment) : beforeComment (before ++ comment) = before := by
  have hbefore : ∀ c ∈ before, (c != '/') = true := fun c hc =>
    bne_iff_ne.mpr fun he => h (he ▸ hc)
  unfold beforeComment
  rw [List.takeWhile_append_of_pos hbefore]
  rcases hcomment with rfl | ⟨text, rfl⟩
  · simp
  · simp

theorem slash_notMem_of_isWords {ws : List Word} (h : IsWords signed cs ws) : '/' ∉ cs := by
  induction h with
  | nil hgap => exact hgap.notMem (by decide)
  | cons hgap hnumber _ _ ih =>
    simp only [List.mem_append, not_or]
    exact ⟨hgap.notMem (by decide), hnumber.notMem (by decide), ih⟩

theorem slash_notMem_of_isBlock {b : Block} (h : IsBlock signed cs b) : '/' ∉ cs := by
  obtain ⟨hgap, haddress, hgap', hwords⟩ := h
  simp only [List.mem_append, List.mem_cons, not_or]
  exact ⟨⟨⟨hgap.notMem (by decide),
    fun hmem => haddress.forall_mem (P := (· ≠ '/')) (forall_of_all (by decide)) '/' hmem rfl⟩,
    hgap'.notMem (by decide)⟩, by decide, slash_notMem_of_isWords hwords⟩

/-- A line is what stands before its comment. -/
theorem isLine_iff {line : List Char} {o : Option Block} :
    IsLine signed line o ↔
      (o = none ∧ Blanks (beforeComment line)) ∨
        ∃ b, o = some b ∧ IsBlock signed (beforeComment line) b := by
  constructor
  · intro h
    cases h with
    | empty hgap hcomment =>
      rw [beforeComment_append (hgap.notMem (by decide)) hcomment]
      exact .inl ⟨rfl, hgap⟩
    | block hblock hcomment =>
      rw [beforeComment_append (slash_notMem_of_isBlock hblock) hcomment]
      exact .inr ⟨_, rfl, hblock⟩
  · intro h
    obtain ⟨comment, hline, hcomment⟩ := exists_comment line
    rw [hline]
    rcases h with ⟨rfl, hgap⟩ | ⟨b, rfl, hblock⟩
    · exact .empty hgap hcomment
    · exact .block hblock hcomment

theorem parseLine_eq_ok_iff {line : List Char} {o : Option Block} :
    parseLine line = .ok o ↔ IsLine true line o := by
  have hcontent : content line = trim (beforeComment line) := rfl
  rw [isLine_iff, ← trim_eq_nil_iff]
  unfold parseLine
  rw [hcontent]
  cases htrim : trim (beforeComment line) with
  | nil =>
    have hno (b : Block) : ¬ IsBlock true (beforeComment line) b := fun hb =>
      hb.not_blanks (trim_eq_nil_iff.mp htrim)
    simp only [hno, and_false, exists_false, or_false, and_true]
    exact ⟨fun h => by cases h; rfl, fun h => by rw [h]⟩
  | cons c cs =>
    dsimp only
    rw [← htrim, parseContent_trim]
    have hne : trim (beforeComment line) ≠ [] := by rw [htrim]; exact List.cons_ne_nil c cs
    simp only [hne, and_false, false_or]
    cases hparse : parseContent (beforeComment line) with
    | error e =>
      have hno (b : Block) : ¬ IsBlock true (beforeComment line) b := fun hb => by
        rw [parseContent_eq_ok_iff.mpr hb] at hparse
        cases hparse
      simp [hno]
    | ok block =>
      have hblock (b : Block) : IsBlock true (beforeComment line) b ↔ b = block := by
        rw [← parseContent_eq_ok_iff, hparse, Except.ok.injEq, eq_comm]
      simp only [hblock, exists_eq_right, Except.ok.injEq]
      exact eq_comm

/-! ## Images -/

/-- An image is its lines. -/
theorem isImage_iff {blocks : List Block} :
    IsImage signed cs blocks ↔
      ∃ os, List.Forall₂ (IsLine signed) (lines cs) os ∧ blocks = os.flatMap Option.toList := by
  constructor
  · intro h
    induction h with
    | last hline hnot =>
      rename_i line o
      rw [lines_of_notMem hnot]
      exact ⟨[o], .cons hline .nil, by simp⟩
    | line hline hnot _ ih =>
      rename_i line rest o blocks _
      obtain ⟨os, hlines, rfl⟩ := ih
      rw [lines_append hnot]
      exact ⟨o :: os, .cons hline hlines, rfl⟩
  · rintro ⟨os, hlines, rfl⟩
    -- on the length of the text, one line at a time
    induction hn : cs.length using Nat.strongRecOn generalizing cs os with
    | ind n ih =>
      by_cases hnewline : '\n' ∈ cs
      · obtain ⟨line, rest, rfl, hnot⟩ := List.eq_append_cons_of_mem hnewline
        rw [lines_append hnot, List.forall₂_cons_left_iff] at hlines
        obtain ⟨o, os, hline, hlines, rfl⟩ := hlines
        have hlt : rest.length < n := by
          simp only [List.length_append, List.length_cons] at hn
          omega
        exact .line hline hnot (ih _ hlt os hlines rfl)
      · rw [lines_of_notMem hnewline, List.forall₂_cons_left_iff] at hlines
        obtain ⟨o, os, hline, hnone, rfl⟩ := hlines
        rw [List.forall₂_nil_left_iff.mp hnone]
        have himage := IsImage.last hline hnewline
        simpa using himage

theorem parseLines_eq_ok_iff {n : Nat} {ls : List (List Char)} {blocks : List Block} :
    parseLines n ls = .ok blocks ↔
      ∃ os, List.Forall₂ (IsLine true) ls os ∧ blocks = os.flatMap Option.toList := by
  induction ls generalizing n blocks with
  | nil =>
    simp only [List.forall₂_nil_left_iff, exists_eq_left, List.flatMap_nil]
    exact ⟨fun h => by cases h; rfl, fun h => by rw [h]; rfl⟩
  | cons line ls ih =>
    simp only [List.forall₂_cons_left_iff]
    unfold parseLines
    constructor
    · intro h
      split at h
      · cases h
      · rename_i o hline
        split at h
        · cases h
        · rename_i later hlater
          obtain ⟨os, hos, rfl⟩ := ih.mp hlater
          cases h
          exact ⟨o :: os, ⟨o, os, parseLine_eq_ok_iff.mp hline, hos, rfl⟩, rfl⟩
    · rintro ⟨_, ⟨o, os, hline, hos, rfl⟩, rfl⟩
      rw [parseLine_eq_ok_iff.mpr hline]
      dsimp only
      rw [ih.mpr ⟨os, hos, rfl⟩]
      rfl

/-- Reading accepts the texts of the grammar with signs, and gives the blocks they stand for. -/
theorem parse_eq_ok_iff {text : String} {blocks : List Block} :
    parse text = .ok blocks ↔ IsImage true text.toList blocks := by
  unfold parse parseChars
  rw [parseLines_eq_ok_iff, isImage_iff]

/-! ## Plus signs -/

/-- No plus sign stands outside the comments. -/
def Unsigned (cs : List Char) : Prop := ∀ line ∈ lines cs, '+' ∉ beforeComment line

theorem isAddress_false_iff {a : Address} :
    IsAddress false cs a ↔ IsAddress true cs a ∧ '+' ∉ cs := by
  constructor
  · intro h
    cases h with
    | location h =>
      obtain ⟨h, hplus⟩ := number_false_iff.mp h
      exact ⟨.location h, hplus⟩
    | inField hf h =>
      obtain ⟨hf, hplus⟩ := number_false_iff.mp hf
      obtain ⟨h, hplus'⟩ := number_false_iff.mp h
      refine ⟨.inField hf h, ?_⟩
      simp only [List.mem_append, List.mem_cons, not_or]
      exact ⟨hplus, by decide, hplus'⟩
  · rintro ⟨h, hplus⟩
    cases h with
    | location h => exact .location (number_false_iff.mpr ⟨h, hplus⟩)
    | inField hf h =>
      simp only [List.mem_append, List.mem_cons, not_or] at hplus
      exact .inField (number_false_iff.mpr ⟨hf, hplus.1⟩) (number_false_iff.mpr ⟨h, hplus.2.2⟩)

theorem isWords_false_iff {ws : List Word} :
    IsWords false cs ws ↔ IsWords true cs ws ∧ '+' ∉ cs := by
  constructor
  · intro h
    induction h with
    | nil hgap => exact ⟨.nil hgap, hgap.notMem (by decide)⟩
    | cons hgap hnumber hrest _ ih =>
      obtain ⟨hnumber, hplus⟩ := number_false_iff.mp hnumber
      refine ⟨.cons hgap hnumber hrest ih.1, ?_⟩
      simp only [List.mem_append, not_or]
      exact ⟨hgap.notMem (by decide), hplus, ih.2⟩
  · rintro ⟨h, hplus⟩
    induction h with
    | nil hgap => exact .nil hgap
    | cons hgap hnumber hrest _ ih =>
      simp only [List.mem_append, not_or] at hplus
      exact .cons hgap (number_false_iff.mpr ⟨hnumber, hplus.2.1⟩) hrest (ih hplus.2.2)

theorem isBlock_false_iff {b : Block} :
    IsBlock false cs b ↔ IsBlock true cs b ∧ '+' ∉ cs := by
  constructor
  · rintro ⟨hgap, haddress, hgap', hwords⟩
    obtain ⟨haddress, hplus⟩ := isAddress_false_iff.mp haddress
    obtain ⟨hwords, hplus'⟩ := isWords_false_iff.mp hwords
    refine ⟨.intro hgap haddress hgap' hwords, ?_⟩
    simp only [List.mem_append, List.mem_cons, not_or]
    exact ⟨⟨⟨hgap.notMem (by decide), hplus⟩, hgap'.notMem (by decide)⟩, by decide, hplus'⟩
  · rintro ⟨⟨hgap, haddress, hgap', hwords⟩, hplus⟩
    simp only [List.mem_append, List.mem_cons, not_or] at hplus
    exact .intro hgap (isAddress_false_iff.mpr ⟨haddress, hplus.1.1.2⟩) hgap'
      (isWords_false_iff.mpr ⟨hwords, hplus.2.2⟩)

theorem isLine_false_iff {line : List Char} {o : Option Block} :
    IsLine false line o ↔ IsLine true line o ∧ '+' ∉ beforeComment line := by
  rw [isLine_iff, isLine_iff]
  constructor
  · rintro (⟨rfl, hgap⟩ | ⟨b, rfl, hblock⟩)
    · exact ⟨.inl ⟨rfl, hgap⟩, hgap.notMem (by decide)⟩
    · obtain ⟨hblock, hplus⟩ := isBlock_false_iff.mp hblock
      exact ⟨.inr ⟨b, rfl, hblock⟩, hplus⟩
  · rintro ⟨⟨rfl, hgap⟩ | ⟨b, rfl, hblock⟩, hplus⟩
    · exact .inl ⟨rfl, hgap⟩
    · exact .inr ⟨b, rfl, isBlock_false_iff.mpr ⟨hblock, hplus⟩⟩

theorem isImage_false_iff {blocks : List Block} :
    IsImage false cs blocks ↔ IsImage true cs blocks ∧ Unsigned cs := by
  have hline : IsLine false = fun line o => '+' ∉ beforeComment line ∧ IsLine true line o := by
    funext line o
    exact propext (isLine_false_iff.trans and_comm)
  unfold Unsigned
  rw [isImage_iff, isImage_iff, hline]
  simp only [List.forall₂_and_left]
  constructor
  · rintro ⟨os, ⟨hplus, hos⟩, rfl⟩
    exact ⟨⟨os, hos, rfl⟩, hplus⟩
  · rintro ⟨⟨os, hos, rfl⟩, hplus⟩
    exact ⟨os, ⟨hplus, hos⟩, rfl⟩

/-- What is read are the texts of the grammar whose numbers may have a plus sign, each with the
blocks that it stands for.  Of the documented format, in which no number has one, these are all the
texts and their blocks, and the texts read beyond it are those with a plus sign outside comments. -/
theorem reads_signed_grammar (text : String) (blocks : List Block) :
    (parse text = .ok blocks ↔ IsImage true text.toList blocks) ∧
      (IsImage false text.toList blocks ↔ parse text = .ok blocks ∧ Unsigned text.toList) := by
  rw [isImage_false_iff, parse_eq_ok_iff]
  exact ⟨Iff.rfl, Iff.rfl⟩

/-- A plus sign is read though no documented image has one. -/
theorem reads_undocumented_sign :
    parse "0200: +7200" = .ok [⟨⟨0, 0o200⟩, [0o7200]⟩] ∧
      ∀ blocks, ¬ IsImage false "0200: +7200".toList blocks := by
  refine ⟨by decide, ?_⟩
  intro blocks h
  have hunsigned : Unsigned "0200: +7200".toList := (isImage_false_iff.mp h).2
  exact absurd (hunsigned "0200: +7200".toList (by decide)) (by decide)

end Pdp8.Image
