import Mathlib.Algebra.Order.Group.Nat
import Mathlib.Data.List.Forall2

/-!
# Texts of fixed width

A number with leading zeros compares with another of the same width like the numbers
themselves, whatever follows. A list of such fields compares like the list of its numbers.
Where trailing zeros are cut off, the order depends on what stands behind the digits: it has to
come before every digit.
-/
namespace ProxyFleet.FixedWidthTexts

/-- The last decimal digits of a number, with leading zeros. -/
def digits : ℕ → ℕ → List Char
  | 0, _ => []
  | width + 1, n => Nat.digitChar (n / 10 ^ width) :: digits width (n % 10 ^ width)

/-- Fields of fixed width, each with the text behind it. -/
def layoutText : List (ℕ × List Char) → List ℕ → List Char → List Char
  | (width, separator) :: layout, n :: ns, tail =>
    digits width n ++ (separator ++ layoutText layout ns tail)
  | _, _, tail => tail

/-- Each number has room in its field. -/
def Fits : List (ℕ × List Char) → List ℕ → Prop :=
  List.Forall₂ fun field n => n < 10 ^ field.1

/-- Of two words of one length the front decides, whatever follows. -/
theorem append_lt_append {α : Type*} [LT α] {s t u v : List α} (hlength : s.length = t.length)
    (h : s < t) : s ++ u < t ++ v := by
  induction s generalizing t with
  | nil =>
    obtain rfl := List.length_eq_zero_iff.mp hlength.symm
    cases h
  | cons a s ih =>
    cases t with
    | nil => cases hlength
    | cons b t =>
      rw [List.cons_append, List.cons_append, List.cons_lt_cons_iff]
      rcases List.cons_lt_cons_iff.mp h with hlt | ⟨rfl, hlt⟩
      · exact .inl hlt
      · exact .inr ⟨rfl, ih (Nat.succ.inj hlength) hlt⟩

section Digits

variable {m n : ℕ} {s t : List Char}

theorem digitChar_lt (h : m < n) (hn : n < 10) : Nat.digitChar m < Nat.digitChar n := by
  have hm := Nat.toNat_digitChar_of_lt_ten (h.trans hn)
  have hchar := Nat.toNat_digitChar_of_lt_ten hn
  rw [Char.lt_def, UInt32.lt_iff_toNat_lt]
  change (Nat.digitChar m).toNat < (Nat.digitChar n).toNat
  omega

/-- Of two numbers in one block the smaller one lies further to the front. -/
theorem mod_lt_mod {b : ℕ} (h : m < n) (hblock : m / b = n / b) : m % b < n % b := by
  have hm := Nat.div_add_mod m b
  have hn := Nat.div_add_mod n b
  rw [hblock] at hm
  omega

theorem ten_pow_pos (width : ℕ) : 0 < 10 ^ width := Nat.pow_pos (Nat.succ_pos 9)

theorem digits_append_lt {width : ℕ} (h : m < n) (hn : n < 10 ^ width) :
    digits width m ++ s < digits width n ++ t := by
  induction width generalizing m n with
  | zero => omega
  | succ width ih =>
    rw [digits, digits, List.cons_append, List.cons_append, List.cons_lt_cons_iff]
    rcases (Nat.div_le_div_right (c := 10 ^ width) h.le).lt_or_eq with hlt | heq
    · left
      apply digitChar_lt hlt
      exact Nat.div_lt_of_lt_mul (pow_succ 10 width ▸ hn)
    · right
      exact ⟨congrArg Nat.digitChar heq,
        ih (mod_lt_mod h heq) (Nat.mod_lt _ (ten_pow_pos width))⟩

theorem layoutText_lt {layout : List (ℕ × List Char)} {ms ns : List ℕ} (hms : Fits layout ms)
    (hns : Fits layout ns) (h : ms < ns) : layoutText layout ms s < layoutText layout ns t := by
  induction hms generalizing ns with
  | nil =>
    cases hns
    exact absurd h (List.lt_irrefl _)
  | @cons field m layout ms hm hms ih =>
    obtain ⟨n, rest, hn, hrest, rfl⟩ := List.forall₂_cons_left_iff.mp hns
    rw [layoutText, layoutText]
    rcases List.cons_lt_cons_iff.mp h with hlt | ⟨rfl, hlt⟩
    · exact digits_append_lt hlt hn
    · exact List.append_left_lt (List.append_left_lt (ih hrest hlt))

theorem layoutText_tail {layout : List (ℕ × List Char)} {ns : List ℕ} (hns : Fits layout ns)
    (h : s < t) : layoutText layout ns s < layoutText layout ns t := by
  induction hns with
  | nil => exact h
  | cons _ _ ih => exact List.append_left_lt (List.append_left_lt ih)

end Digits

section Truncated

variable {width : ℕ} {c : Char} {s t : List Char}

/-- The first digits of a number of a width. -/
theorem digits_div {k : ℕ} (hk : k < width + 1) (n : ℕ) :
    digits (k + 1) (n / 10 ^ (width - k)) =
      Nat.digitChar (n / 10 ^ width) :: digits k (n % 10 ^ width / 10 ^ (width - k)) := by
  have hpow : 10 ^ (width - k) * 10 ^ k = 10 ^ width := by
    rw [← pow_add, Nat.sub_add_cancel (Nat.le_of_lt_succ hk)]
  have hmod : n / 10 ^ (width - k) % 10 ^ k = n % 10 ^ width / 10 ^ (width - k) := by
    rw [← hpow, Nat.mod_mul_right_div_self]
  rw [digits, Nat.div_div_eq_div_mul, hpow, hmod]

/-- Numbers without trailing zeros, each with a character behind it that comes before all digits.
Of two texts for one number the shorter one comes first. -/
theorem truncated_lt (hc : ∀ d < 10, c < Nat.digitChar d) {k l m n : ℕ} (hk : k ≤ width)
    (hl : l ≤ width) (hm : 10 ^ (width - k) ∣ m) (hn : 10 ^ (width - l) ∣ n)
    (h : m < n ∨ m = n ∧ k < l) (hwidth : n < 10 ^ width) :
    digits k (m / 10 ^ (width - k)) ++ c :: s < digits l (n / 10 ^ (width - l)) ++ t := by
  induction width generalizing k l m n with
  | zero => omega
  | succ width ih =>
    cases l with
    | zero =>
      have hzero : n = 0 := Nat.eq_zero_of_dvd_of_lt hn hwidth
      omega
    | succ l =>
      rw [Nat.add_sub_add_right] at hn ⊢
      rw [digits_div hl, List.cons_append]
      have hhead : n / 10 ^ width < 10 := Nat.div_lt_of_lt_mul (pow_succ 10 width ▸ hwidth)
      cases k with
      | zero =>
        rw [digits, List.nil_append, List.cons_lt_cons_iff]
        exact .inl (hc _ hhead)
      | succ k =>
        rw [Nat.add_sub_add_right] at hm ⊢
        rw [digits_div hk, List.cons_append, List.cons_lt_cons_iff]
        have hle : m ≤ n := h.elim Nat.le_of_lt fun h => h.1.le
        rcases (Nat.div_le_div_right (c := 10 ^ width) hle).lt_or_eq with hlt | heq
        · exact .inl (digitChar_lt hlt hhead)
        · right
          have hpow : ∀ j ≤ width, 10 ^ (width - j) ∣ 10 ^ width :=
            fun j _ => Nat.pow_dvd_pow 10 (Nat.sub_le _ _)
          refine ⟨congrArg Nat.digitChar heq, ih (Nat.le_of_succ_le_succ hk)
            (Nat.le_of_succ_le_succ hl) ?_ ?_ ?_ (Nat.mod_lt _ (ten_pow_pos width))⟩
          · exact (Nat.dvd_mod_iff (hpow k (Nat.le_of_succ_le_succ hk))).mpr hm
          · exact (Nat.dvd_mod_iff (hpow l (Nat.le_of_succ_le_succ hl))).mpr hn
          · rcases h with hlt | ⟨rfl, hshorter⟩
            · exact .inl (mod_lt_mod hlt heq)
            · exact .inr ⟨rfl, Nat.lt_of_succ_lt_succ hshorter⟩

end Truncated

end ProxyFleet.FixedWidthTexts
