import Pdp8.Octal

/-!
# Pdp8.Proofs.OctalNumerals — octal numbers written and read back

A `Numeral` is one or more octal digits, with their value.  Numbers are written as numerals, of
which each says the number it was written for; they are read from numerals, with a plus sign before
them or not.
-/

namespace Pdp8.Octal

/-- One of the eight digits. -/
def IsDigit (c : Char) : Prop := '0' ≤ c ∧ c ≤ '7'

instance (c : Char) : Decidable (IsDigit c) := inferInstanceAs (Decidable (_ ∧ _))

/-- `cs` is one or more octal digits, and their value is `n`. -/
structure Numeral (cs : List Char) (n : Nat) : Prop where
  nonempty : cs ≠ []
  digits : ∀ c ∈ cs, IsDigit c
  value : Nat.ofDigitChars 8 cs 0 = n

/-- `cs` is a numeral for `n`, with a plus sign before it or, where signs are allowed, not. -/
def Number (signed : Bool) (cs : List Char) (n : Nat) : Prop :=
  Numeral cs n ∨ signed = true ∧ ∃ ds, cs = '+' :: ds ∧ Numeral ds n

variable {cs : List Char} {n m : Nat}

/-! ## Digits -/

/-- A check of some characters, one after another. -/
theorem forall_of_all {P : Char → Prop} [DecidablePred P] (h : cs.all (fun c => P c) = true) :
    ∀ c ∈ cs, P c := fun c hc => of_decide_eq_true (List.all_eq_true.mp h c hc)

theorem isDigit_iff_mem (c : Char) : IsDigit c ↔ c ∈ ['0', '1', '2', '3', '4', '5', '6', '7'] := by
  constructor
  · rintro ⟨hlow, hhigh⟩
    have hlow' : 48 ≤ c.toNat := hlow
    have hhigh' : c.toNat ≤ 55 := hhigh
    have hmem : c.toNat ∈ ['0', '1', '2', '3', '4', '5', '6', '7'].map Char.toNat := by
      simp only [List.map_cons, List.map_nil, List.mem_cons, List.not_mem_nil, or_false]
      simp only [Char.reduceToNat]
      omega
    obtain ⟨d, hd, heq⟩ := List.mem_map.mp hmem
    rw [← Char.toNat_inj.mp heq]
    exact hd
  · have hdigits : ∀ d ∈ ['0', '1', '2', '3', '4', '5', '6', '7'], IsDigit d :=
      forall_of_all (by decide)
    exact hdigits c

/-- What holds of the eight digits holds of every digit. -/
theorem IsDigit.elim {c : Char} (h : IsDigit c) {P : Char → Prop}
    (hP : ∀ d ∈ ['0', '1', '2', '3', '4', '5', '6', '7'], P d) : P c :=
  hP c ((isDigit_iff_mem c).mp h)

theorem isDigit_digitChar {d : Nat} (h : d < 8) : IsDigit d.digitChar := by
  have hdigits : ∀ d < 8, IsDigit (Nat.digitChar d) := by decide
  exact hdigits d h

/-! ## The characters of a number -/

section Characters

variable {signed : Bool}

theorem Number.ne_nil (h : Number signed cs n) : cs ≠ [] := by
  rcases h with h | ⟨-, ds, rfl, -⟩
  · exact h.nonempty
  · exact List.cons_ne_nil _ _

/-- What holds of the digits and the plus sign holds of all that numbers are made of. -/
theorem Number.forall_mem (h : Number signed cs n) {P : Char → Prop}
    (hP : ∀ c ∈ ['+', '0', '1', '2', '3', '4', '5', '6', '7'], P c) : ∀ c ∈ cs, P c := by
  have hdigits {ds : List Char} (hds : Numeral ds n) : ∀ c ∈ ds, P c := fun c hc =>
    (hds.digits c hc).elim fun d hd => hP d (List.mem_cons_of_mem _ hd)
  rcases h with h | ⟨-, ds, rfl, h⟩
  · exact hdigits h
  · exact List.forall_mem_cons.mpr ⟨hP '+' List.mem_cons_self, hdigits h⟩

theorem Number.notMem (h : Number signed cs n) {c : Char}
    (hc : c ∉ ['+', '0', '1', '2', '3', '4', '5', '6', '7']) : c ∉ cs := fun hmem =>
  h.forall_mem (P := (· ≠ c)) (fun _ hd he => hc (he ▸ hd)) c hmem rfl

/-- A number has a plus sign only where signs are allowed. -/
theorem number_false_iff : Number false cs n ↔ Number true cs n ∧ '+' ∉ cs := by
  constructor
  · rintro (h | ⟨hfalse, -⟩)
    · exact ⟨.inl h, fun hmem => absurd (h.digits '+' hmem) (by decide)⟩
    · cases hfalse
  · rintro ⟨h | ⟨-, ds, rfl, -⟩, hplus⟩
    · exact .inl h
    · exact absurd List.mem_cons_self hplus

end Characters

/-! ## Reading -/

theorem continue?_eq_some_iff :
    continue? n cs = some m ↔ (∀ c ∈ cs, IsDigit c) ∧ Nat.ofDigitChars 8 cs n = m := by
  induction cs generalizing n with
  | nil => simp [continue?]
  | cons c cs ih =>
    unfold continue? digit?
    rw [List.forall_mem_cons, Nat.ofDigitChars_cons, and_assoc]
    by_cases hc : '0' ≤ c ∧ c ≤ '7'
    · rw [if_pos hc, Option.bind_some, ih]
      exact ⟨fun h => ⟨hc, h⟩, fun h => h.2⟩
    · rw [if_neg hc]
      exact ⟨nofun, fun h => absurd h.1 hc⟩

theorem digits?_eq_some_iff : digits? cs = some n ↔ Numeral cs n := by
  cases cs with
  | nil => exact ⟨nofun, fun h => absurd rfl h.nonempty⟩
  | cons c cs =>
    unfold digits?
    rw [continue?_eq_some_iff]
    exact ⟨fun h => ⟨List.cons_ne_nil c cs, h.1, h.2⟩, fun h => ⟨h.digits, h.value⟩⟩

theorem Numeral.not_plus {ds : List Char} (h : Numeral ('+' :: ds) n) : False := by
  have hplus : ¬ IsDigit '+' := by decide
  exact hplus (h.digits '+' List.mem_cons_self)

/-- A number is read from a numeral, with or without a plus sign. -/
theorem parse?_eq_some_iff : parse? cs = some n ↔ Number true cs n := by
  unfold parse? Number
  split
  · rename_i ds
    rw [digits?_eq_some_iff]
    constructor
    · intro h
      exact .inr ⟨rfl, ds, rfl, h⟩
    · rintro (h | ⟨-, ds', heq, h⟩)
      · exact h.not_plus.elim
      · cases heq
        exact h
  · rename_i hplus
    rw [digits?_eq_some_iff]
    constructor
    · exact .inl
    · rintro (h | ⟨-, ds, rfl, -⟩)
      · exact h
      · exact absurd rfl (hplus ds)

/-- A word is read from a number that fits into it. -/
theorem parseWord?_eq_some_iff {w : Nat} {a : BitVec w} :
    parseWord? w cs = some a ↔ Number true cs a.toNat := by
  unfold parseWord?
  rw [Option.bind_eq_some_iff, ← parse?_eq_some_iff]
  have hword (n : Nat) : (Word.ofInt w n).toOption = some a ↔ n = a.toNat := by
    rw [← Int.ofNat_inj, ← @Eq.comm _ (a.toNat : Int), ← Word.ofInt_eq_ok_iff]
    cases Word.ofInt w n <;> simp [Except.toOption]
  simp only [hword]
  constructor
  · rintro ⟨n, hn, rfl⟩
    exact hn
  · intro h
    exact ⟨_, h, rfl⟩

/-! ## Writing -/

theorem isDigit_of_mem_digits (n : Nat) : ∀ c ∈ digits n, IsDigit c := by
  induction n using Nat.base_induction 8 (by decide) with
  | single m hm =>
    unfold digits
    rw [Nat.toDigits_of_lt_base hm]
    intro c hc
    rw [List.mem_singleton.mp hc]
    exact isDigit_digitChar hm
  | digit m k hk hm ih =>
    unfold digits at ih ⊢
    rw [← Nat.toDigits_append_toDigits (by decide) hm hk, Nat.toDigits_of_lt_base hk]
    intro c hc
    rcases List.mem_append.mp hc with hc | hc
    · exact ih c hc
    · rw [List.mem_singleton.mp hc]
      exact isDigit_digitChar hk

theorem numeral_digits (n : Nat) : Numeral (digits n) n where
  nonempty := Nat.toDigits_ne_nil
  digits := isDigit_of_mem_digits n
  value := Nat.ofDigitChars_toDigits (by decide) (by decide)

/-- Zeros before a numeral do not change its value. -/
theorem Numeral.padLeft (h : Numeral cs n) (width : Nat) : Numeral (padLeft width '0' cs) n where
  nonempty := List.append_ne_nil_of_right_ne_nil _ h.nonempty
  digits := by
    intro c hc
    rcases List.mem_append.mp hc with hc | hc
    · rw [List.eq_of_mem_replicate hc]
      decide
    · exact h.digits c hc
  value := by
    unfold Octal.padLeft
    rw [Nat.ofDigitChars_append, Nat.ofDigitChars_replicate_zero, Nat.mul_zero, h.value]

theorem numeral_text (n : Nat) : Numeral (text n).toList n := by
  unfold text
  rw [String.toList_ofList]
  exact numeral_digits n

theorem numeral_word {w : Nat} (a : BitVec w) : Numeral (word a).toList a.toNat := by
  unfold word padded
  rw [String.toList_ofList]
  exact (numeral_digits a.toNat).padLeft 4

theorem number_word {signed : Bool} {w : Nat} (a : BitVec w) :
    Number signed (word a).toList a.toNat := .inl (numeral_word a)

/-- Different words have different texts. -/
theorem word_inj {w : Nat} {a b : BitVec w} : word a = word b ↔ a = b := by
  constructor
  · intro h
    have hb := numeral_word b
    rw [← h] at hb
    exact BitVec.eq_of_toNat_eq ((numeral_word a).value.symm.trans hb.value)
  · rintro rfl
    rfl

end Pdp8.Octal
