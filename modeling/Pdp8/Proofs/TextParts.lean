import Mathlib.Data.List.TakeWhile
import Pdp8.Text.Split

/-!
# Pdp8.Proofs.TextParts — what a text is cut into

Each way of cutting a text is described by how the parts go together again: `cut?` by what stands on
the two sides of the first separator, lines by a newline after each but the last, tokens by runs of
white space between them.  White space around a text is nothing to trimming and to tokens.
-/

namespace Pdp8.Text

/-- White space alone, or nothing. -/
def Blanks (cs : List Char) : Prop := ∀ c ∈ cs, isBlank c = true

variable {cs gap t rest : List Char} {sep : Char → Bool}

theorem blanks_nil : Blanks [] := nofun

theorem Blanks.append (h : Blanks cs) (h' : Blanks gap) : Blanks (cs ++ gap) := by
  intro c hc
  rcases List.mem_append.mp hc with hc | hc
  · exact h c hc
  · exact h' c hc

theorem Blanks.notMem {c : Char} (h : Blanks cs) (hc : isBlank c = false) : c ∉ cs := fun hmem =>
  Bool.false_ne_true (hc.symm.trans (h c hmem))

/-! ## Cutting in two -/

theorem cut?_append {c : Char} {before : List Char} (h : c ∉ before) (after : List Char) :
    cut? c (before ++ c :: after) = some (before, after) := by
  have hbefore : ∀ d ∈ before, (d != c) = true := fun d hd => bne_iff_ne.mpr fun he => h (he ▸ hd)
  unfold cut?
  rw [List.dropWhile_append_of_pos hbefore, List.takeWhile_append_of_pos hbefore]
  simp

theorem cut?_of_notMem {c : Char} (h : c ∉ cs) : cut? c cs = none := by
  have hdrop : cs.dropWhile (· != c) = [] :=
    List.dropWhile_eq_nil_iff.mpr fun d hd => bne_iff_ne.mpr fun he => h (he ▸ hd)
  unfold cut?
  rw [hdrop]

/-- The first separator, and what stands on its two sides. -/
theorem cut?_eq_some_iff {c : Char} {before after : List Char} :
    cut? c cs = some (before, after) ↔ cs = before ++ c :: after ∧ c ∉ before := by
  constructor
  · intro h
    by_cases hmem : c ∈ cs
    · obtain ⟨before', after', rfl, hnot⟩ := List.eq_append_cons_of_mem hmem
      rw [cut?_append hnot] at h
      cases h
      exact ⟨rfl, hnot⟩
    · rw [cut?_of_notMem hmem] at h
      cases h
  · rintro ⟨rfl, hnot⟩
    exact cut?_append hnot after

theorem cut?_eq_none_iff {c : Char} : cut? c cs = none ↔ c ∉ cs := by
  constructor
  · intro h hmem
    obtain ⟨before, after, heq, hnot⟩ := List.eq_append_cons_of_mem hmem
    rw [cut?_eq_some_iff.mpr ⟨heq, hnot⟩] at h
    cases h
  · exact cut?_of_notMem

/-! ## Cutting at every separator -/

theorem splitWhen_of_forall (h : ∀ c ∈ cs, sep c = false) : splitWhen sep cs = [cs] := by
  induction cs with
  | nil => rfl
  | cons c cs ih =>
    obtain ⟨hc, hcs⟩ := List.forall_mem_cons.mp h
    rw [splitWhen_cons, hc, ih hcs]
    rfl

theorem splitWhen_append {c : Char} (hc : sep c = true) (a b : List Char) :
    splitWhen sep (a ++ c :: b) = splitWhen sep a ++ splitWhen sep b := by
  induction a with
  | nil => rw [List.nil_append, splitWhen_cons, if_pos hc]; rfl
  | cons d a ih =>
    rw [List.cons_append, splitWhen_cons, splitWhen_cons, ih]
    split
    · rfl
    · cases hparts : splitWhen sep a with
      | nil => exact absurd hparts (splitWhen_ne_nil sep a)
      | cons part parts => rfl

/-- A newline ends a line. -/
theorem lines_append {line : List Char} (h : '\n' ∉ line) (rest : List Char) :
    lines (line ++ '\n' :: rest) = line :: lines rest := by
  unfold lines
  rw [splitWhen_append (by decide), splitWhen_of_forall, List.singleton_append]
  intro c hc
  exact beq_eq_false_iff_ne.mpr fun he => h (he ▸ hc)

theorem lines_of_notMem (h : '\n' ∉ cs) : lines cs = [cs] :=
  splitWhen_of_forall fun _ hc => beq_eq_false_iff_ne.mpr fun he => h (he ▸ hc)

/-! ## Tokens -/

theorem tokens_append {c : Char} (hc : isBlank c = true) (a b : List Char) :
    tokens (a ++ c :: b) = tokens a ++ tokens b := by
  unfold tokens
  rw [splitWhen_append hc, List.filter_append]

theorem tokens_nil : tokens [] = [] := rfl

theorem tokens_blanks_append (h : Blanks gap) (cs : List Char) :
    tokens (gap ++ cs) = tokens cs := by
  induction gap with
  | nil => rfl
  | cons c gap ih =>
    obtain ⟨hc, hgap⟩ := List.forall_mem_cons.mp h
    have hfirst := tokens_append hc [] (gap ++ cs)
    rw [List.nil_append, tokens_nil, List.nil_append] at hfirst
    rw [List.cons_append, hfirst, ih hgap]

theorem tokens_append_blanks (h : Blanks gap) (cs : List Char) :
    tokens (cs ++ gap) = tokens cs := by
  cases gap with
  | nil => rw [List.append_nil]
  | cons c gap =>
    obtain ⟨hc, hgap⟩ := List.forall_mem_cons.mp h
    have hrest := tokens_blanks_append hgap []
    rw [List.append_nil, tokens_nil] at hrest
    rw [tokens_append hc, hrest, List.append_nil]

theorem tokens_of_blanks (h : Blanks cs) : tokens cs = [] := by
  have hcs := tokens_append_blanks h []
  rw [List.nil_append, tokens_nil] at hcs
  exact hcs

/-- A word ends at the end of the text, or before white space. -/
def EndsWord (rest : List Char) : Prop := ∀ c ∈ rest.head?, isBlank c = true

/-- The first word of a text is its first token. -/
theorem tokens_word_append (ht : t ≠ []) (hword : ∀ c ∈ t, isBlank c = false)
    (hrest : EndsWord rest) : tokens (t ++ rest) = t :: tokens rest := by
  have halone : tokens t = [t] := by
    unfold tokens
    rw [splitWhen_of_forall hword]
    simp [ht]
  cases rest with
  | nil => rw [List.append_nil, tokens_nil, halone]
  | cons c rest =>
    have hc : isBlank c = true := hrest c rfl
    have hblank : Blanks [c] := by simpa [Blanks] using hc
    have hskip : tokens (c :: rest) = tokens rest := tokens_blanks_append hblank rest
    rw [tokens_append hc, hskip, halone, List.singleton_append]

/-- Any text but white space has a first word. -/
theorem exists_word (h : ¬ Blanks cs) :
    ∃ gap t rest, cs = gap ++ (t ++ rest) ∧ Blanks gap ∧ t ≠ [] ∧ (∀ c ∈ t, isBlank c = false) ∧
      EndsWord rest := by
  have hcut := List.takeWhile_append_dropWhile (p := isBlank) (l := cs)
  cases hrest : cs.dropWhile isBlank with
  | nil => exact absurd (List.dropWhile_eq_nil_iff.mp hrest) h
  | cons c later =>
    have hc : isBlank c = false := by
      have hhead := List.head?_dropWhile_not isBlank cs
      rw [hrest] at hhead
      simpa using hhead
    rw [hrest] at hcut
    refine ⟨cs.takeWhile isBlank, (c :: later).takeWhile (!isBlank ·),
      (c :: later).dropWhile (!isBlank ·), ?_, fun _ hd => List.mem_takeWhile_imp hd, ?_, ?_, ?_⟩
    · rw [List.takeWhile_append_dropWhile, hcut]
    · rw [List.takeWhile_cons, hc]
      exact List.cons_ne_nil _ _
    · intro d hd
      simpa using List.mem_takeWhile_imp hd
    · intro d hd
      have hhead := List.head?_dropWhile_not (!isBlank ·) (c :: later)
      rw [Option.mem_def.mp hd] at hhead
      simpa using hhead

/-! ## Trimming -/

theorem trim_blanks_append (h : Blanks gap) (cs : List Char) : trim (gap ++ cs) = trim cs := by
  unfold trim
  rw [List.dropWhile_append, List.dropWhile_eq_nil_iff.mpr h, List.isEmpty_nil, if_pos rfl]

theorem trim_append_blanks (h : Blanks gap) (cs : List Char) : trim (cs ++ gap) = trim cs := by
  have hreverse : List.dropWhile isBlank gap.reverse = [] :=
    List.dropWhile_eq_nil_iff.mpr fun c hc => h c (List.mem_reverse.mp hc)
  unfold trim
  rw [List.dropWhile_append]
  split
  · rename_i hempty
    rw [List.isEmpty_iff.mp hempty, List.dropWhile_eq_nil_iff.mpr h]
  · rw [List.reverse_append, List.dropWhile_append, hreverse, List.isEmpty_nil, if_pos rfl]

theorem trim_of_word (h : ∀ c ∈ cs, isBlank c = false) : trim cs = cs := by
  have hkeep {l : List Char} (hl : ∀ c ∈ l, isBlank c = false) : l.dropWhile isBlank = l := by
    cases l with
    | nil => rfl
    | cons c l => rw [List.dropWhile_cons, hl c List.mem_cons_self]; rfl
  unfold trim
  rw [hkeep h, hkeep fun c hc => h c (List.mem_reverse.mp hc), List.reverse_reverse]

/-- A text is what trimming leaves of it, with white space around. -/
theorem exists_trim (cs : List Char) :
    ∃ before after, cs = before ++ trim cs ++ after ∧ Blanks before ∧ Blanks after := by
  refine ⟨cs.takeWhile isBlank, ((cs.dropWhile isBlank).reverse.takeWhile isBlank).reverse,
    ?_, fun c hc => List.mem_takeWhile_imp hc,
    fun c hc => List.mem_takeWhile_imp (List.mem_reverse.mp hc)⟩
  unfold trim
  rw [List.append_assoc, ← List.reverse_append, List.takeWhile_append_dropWhile,
    List.reverse_reverse, List.takeWhile_append_dropWhile]

theorem trim_eq_nil_iff : trim cs = [] ↔ Blanks cs := by
  constructor
  · intro h
    obtain ⟨before, after, heq, hbefore, hafter⟩ := exists_trim cs
    rw [h, List.append_nil] at heq
    rw [heq]
    exact hbefore.append hafter
  · intro h
    have htrim := trim_append_blanks h []
    rw [List.nil_append] at htrim
    exact htrim

end Pdp8.Text
