import Pdp8.Proofs.ImageGrammar

/-!
# Pdp8.Proofs.ImageRoundTrip — blocks written as an image and read back

A list of blocks may be written in many ways: with any gaps between the words, comments after them,
lines that say nothing between them, and either kind of line ending.  Every way gives a text of the
grammar that stands for the same list, and so reading gives the list back.
-/

namespace Pdp8.Image

open Octal Text

/-! ## Ways of writing -/

/-- Spaces and tabs, at least one. -/
def IsGap (cs : List Char) : Prop := cs ≠ [] ∧ ∀ c ∈ cs, c = ' ' ∨ c = '\t'

/-- Words in four digits each, with a gap before every one. -/
inductive WritesWords : List Word → List Char → Prop
  | nil : WritesWords [] []
  | cons {w : Word} {ws : List Word} {gap rest : List Char} :
    IsGap gap → WritesWords ws rest → WritesWords (w :: ws) (gap ++ ((word w).toList ++ rest))

/-- What says nothing on a line: white space, and perhaps a comment. -/
inductive IsRemark : List Char → Prop
  | intro {gap comment : List Char} :
    Blanks gap → IsComment comment → '\n' ∉ gap ++ comment → IsRemark (gap ++ comment)

/-- A line without its ending, with a block on it or none. -/
inductive WritesLine : Option Block → List Char → Prop
  | empty {remark : List Char} : IsRemark remark → WritesLine none remark
  | block {b : Block} {words remark : List Char} :
    WritesWords b.words words → IsRemark remark →
    WritesLine (some b) (b.start.text.toList ++ ':' :: (words ++ remark))

/-- Lines one after another, each with an ending but perhaps the last. -/
inductive WritesImage : List Block → List Char → Prop
  | last {o : Option Block} {line : List Char} : WritesLine o line → WritesImage o.toList line
  | line {o : Option Block} {blocks : List Block} {line ending rest : List Char} :
    WritesLine o line → ending = ['\n'] ∨ ending = ['\r', '\n'] → WritesImage blocks rest →
    WritesImage (o.toList ++ blocks) (line ++ (ending ++ rest))

variable {cs : List Char} {blocks : List Block}

/-! ## Words and addresses -/

theorem IsGap.blanks (h : IsGap cs) : Blanks cs := by
  intro c hc
  rcases h.2 c hc with rfl | rfl
  · decide
  · decide

theorem IsGap.endsWord (h : IsGap cs) (rest : List Char) : EndsWord (cs ++ rest) := by
  intro c hc
  rw [List.head?_append_of_ne_nil _ h.1] at hc
  exact h.blanks c (List.mem_of_mem_head? hc)

theorem endsWord_of_blanks (h : Blanks cs) : EndsWord cs := fun c hc =>
  h c (List.mem_of_mem_head? hc)

theorem WritesWords.isWords {ws : List Word} {gap : List Char} (h : WritesWords ws cs)
    (hgap : Blanks gap) : IsWords true (cs ++ gap) ws ∧ EndsWord (cs ++ gap) := by
  induction h with
  | nil => exact ⟨.nil hgap, endsWord_of_blanks hgap⟩
  | cons hfirst _ ih =>
    rw [List.append_assoc, List.append_assoc]
    exact ⟨.cons hfirst.blanks (number_word _) ih.2 ih.1, hfirst.endsWord _⟩

theorem isAddress_text (a : Address) : IsAddress true a.text.toList a := by
  have htext :
      a.text.toList = (Octal.text a.field.toNat).toList ++ '.' :: (word a.location).toList := by
    unfold Address.text
    rw [String.toList_append, String.toList_append, List.append_assoc]
    rfl
  rw [htext]
  exact .inField (.inl (numeral_text _)) (number_word _)

/-! ## Lines -/

/-- A carriage return before the end of a line belongs to what says nothing. -/
theorem IsRemark.append_return (h : IsRemark cs) : IsRemark (cs ++ ['\r']) := by
  obtain ⟨hgap, hcomment, hnewline⟩ := h
  rename_i gap comment
  have hnewline' : '\n' ∉ (gap ++ comment) ++ ['\r'] := by
    rw [List.mem_append, not_or]
    exact ⟨hnewline, by decide⟩
  rcases hcomment with rfl | ⟨text, rfl⟩
  · rw [List.append_nil] at hnewline' ⊢
    have hblank : Blanks ['\r'] := forall_of_all (by decide)
    rw [← List.append_nil (gap ++ ['\r'])] at hnewline' ⊢
    exact .intro (hgap.append hblank) (.inl rfl) hnewline'
  · rw [List.append_assoc] at hnewline' ⊢
    exact .intro hgap (.inr ⟨text ++ ['\r'], rfl⟩) hnewline'

theorem WritesLine.append_return {o : Option Block} (h : WritesLine o cs) :
    WritesLine o (cs ++ ['\r']) := by
  cases h with
  | empty hremark => exact .empty hremark.append_return
  | block hwords hremark =>
    rw [List.append_assoc, List.cons_append, List.append_assoc]
    exact .block hwords hremark.append_return

theorem WritesLine.isLine {o : Option Block} (h : WritesLine o cs) : IsLine true cs o := by
  cases h with
  | empty hremark =>
    obtain ⟨hgap, hcomment, -⟩ := hremark
    exact .empty hgap hcomment
  | @block b words _ hwords hremark =>
    obtain ⟨hgap, hcomment, -⟩ := hremark
    have hblock := IsBlock.intro blanks_nil (isAddress_text b.start) blanks_nil
      (hwords.isWords hgap).1
    have hline := IsLine.block hblock hcomment
    simpa using hline

theorem WritesWords.newline_notMem {ws : List Word} (h : WritesWords ws cs) : '\n' ∉ cs := by
  induction h with
  | nil => exact List.not_mem_nil
  | @cons w _ _ _ hgap _ ih =>
    have hnumber : Number true (word w).toList w.toNat := number_word w
    rw [List.mem_append, List.mem_append, not_or, not_or]
    refine ⟨fun hmem => ?_, hnumber.notMem (by decide), ih⟩
    rcases hgap.2 _ hmem with h | h
    · exact absurd h (by decide)
    · exact absurd h (by decide)

theorem WritesLine.newline_notMem {o : Option Block} (h : WritesLine o cs) : '\n' ∉ cs := by
  cases h with
  | empty hremark =>
    obtain ⟨-, -, hnewline⟩ := hremark
    exact hnewline
  | @block b _ _ hwords hremark =>
    obtain ⟨-, -, hnewline⟩ := hremark
    rw [List.mem_append, List.mem_cons, List.mem_append, not_or, not_or, not_or]
    have haddress : ∀ c ∈ b.start.text.toList, c ≠ '\n' :=
      (isAddress_text b.start).forall_mem (forall_of_all (by decide))
    exact ⟨fun hmem => haddress '\n' hmem rfl, by decide, hwords.newline_notMem, hnewline⟩

/-! ## Images -/

/-- What is written is in the grammar, and stands for the blocks it was written for. -/
theorem WritesImage.isImage (h : WritesImage blocks cs) : IsImage true cs blocks := by
  induction h with
  | last hline => exact .last hline.isLine hline.newline_notMem
  | line hline hending _ ih =>
    rcases hending with rfl | rfl
    · exact .line hline.isLine hline.newline_notMem ih
    · have hreturn := hline.append_return
      have himage := IsImage.line hreturn.isLine hreturn.newline_notMem ih
      rw [List.append_assoc] at himage
      exact himage

theorem exists_writesWords (ws : List Word) : ∃ cs, WritesWords ws cs := by
  induction ws with
  | nil => exact ⟨[], .nil⟩
  | cons w ws ih =>
    obtain ⟨cs, hcs⟩ := ih
    have hgap : IsGap [' '] := ⟨by decide, forall_of_all (by decide)⟩
    exact ⟨_, .cons hgap hcs⟩

theorem isRemark_nil : IsRemark [] := by
  have hremark : IsRemark ([] ++ []) := .intro blanks_nil (.inl rfl) List.not_mem_nil
  exact hremark

/-- Every list of blocks can be written. -/
theorem exists_writesImage (blocks : List Block) : ∃ cs, WritesImage blocks cs := by
  induction blocks with
  | nil => exact ⟨[], .last (.empty isRemark_nil)⟩
  | cons b blocks ih =>
    obtain ⟨cs, hcs⟩ := ih
    obtain ⟨words, hwords⟩ := exists_writesWords b.words
    exact ⟨_, .line (.block hwords isRemark_nil) (.inl rfl) hcs⟩

/-- Every list of blocks can be written, and is read back however it has been written. -/
theorem parse_of_writesImage (blocks : List Block) :
    (∃ cs, WritesImage blocks cs) ∧
      ∀ cs, WritesImage blocks cs → parse (String.ofList cs) = .ok blocks := by
  refine ⟨exists_writesImage blocks, ?_⟩
  intro cs h
  rw [parse_eq_ok_iff, String.toList_ofList]
  exact h.isImage

/-- A block with tabs and a comment, a line that says nothing, and a block without words. -/
theorem parse_of_writesImage_mixed :
    let blocks : List Block := [⟨⟨0, 0o200⟩, [0o7200, 0o1207]⟩, ⟨⟨7, 0o7777⟩, []⟩]
    let cs := "0.0200: 7200\t 1207 / start\r\n \t/ no block\n7.7777:".toList
    WritesImage blocks cs ∧ parse (String.ofList cs) = .ok blocks := by
  intro blocks cs
  have hgap : IsGap [' '] := ⟨by decide, forall_of_all (by decide)⟩
  have htab : IsGap ['\t', ' '] := ⟨by decide, forall_of_all (by decide)⟩
  have hwords : WritesWords [0o7200, 0o1207] " 7200\t 1207".toList := .cons hgap (.cons htab .nil)
  have hblank : Blanks [' '] := forall_of_all (by decide)
  have hblanks : Blanks [' ', '\t'] := forall_of_all (by decide)
  have hremark : IsRemark " / start".toList :=
    .intro hblank (.inr ⟨" start".toList, rfl⟩) (by decide)
  have hempty : IsRemark " \t/ no block".toList :=
    .intro hblanks (.inr ⟨" no block".toList, rfl⟩) (by decide)
  have hfirst : WritesLine (some ⟨⟨0, 0o200⟩, [0o7200, 0o1207]⟩)
      "0.0200: 7200\t 1207 / start".toList := by
    have hline := WritesLine.block (b := ⟨⟨0, 0o200⟩, _⟩) hwords hremark
    have haddress : (Address.text ⟨0, 0o200⟩).toList = "0.0200".toList := by decide
    rw [haddress] at hline
    exact hline
  have hlast : WritesLine (some ⟨⟨7, 0o7777⟩, []⟩) "7.7777:".toList := by
    have hline := WritesLine.block (b := ⟨⟨7, 0o7777⟩, _⟩) .nil isRemark_nil
    have haddress : (Address.text ⟨7, 0o7777⟩).toList = "7.7777".toList := by decide
    rw [haddress] at hline
    exact hline
  have hwritten : WritesImage blocks cs :=
    .line hfirst (.inr rfl) (.line (.empty hempty) (.inl rfl) (.last hlast))
  exact ⟨hwritten, (parse_of_writesImage blocks).2 cs hwritten⟩

end Pdp8.Image
