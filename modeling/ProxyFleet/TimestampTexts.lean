import ProxyFleet.CalendarDates
import ProxyFleet.ClaimScheduling
import ProxyFleet.FixedWidthTexts
import ProxyFleet.FormUrlencoded
import Mathlib.Data.Prod.Lex

/-!
# Stored timestamps

The database holds points in time as texts, and its queries compare them byte by byte. The
service writes as many of 0, 3, 6 and 9 digits of a fraction as it has, and the legacy service 0
or 6. An earlier time has a smaller text whoever wrote the two: the zone behind a shorter
fraction begins with a plus sign, which comes before the point and before every digit.
-/
namespace ProxyFleet

open CalendarDates FixedWidthTexts FormUrlencoded

/-- A point in time as `DateTime<Utc>` holds it, in the years 0 to 9999. In a leap second the
nanoseconds go on behind the second 59. -/
structure UtcInstant where
  second : ℤ
  frac : ℕ
  representable : frac < 10 ^ 9 ∨ second % 60 = 59 ∧ frac < 2 * 10 ^ 9
  inYears : -62167219200 ≤ second ∧ second < 253402300800

namespace UtcInstant

def key (t : UtcInstant) : ℤ ×ₗ ℕ := toLex (t.second, t.frac)

theorem key_injective : Function.Injective key := by
  rintro ⟨second, frac, _, _⟩ ⟨second', frac', _, _⟩ h
  obtain ⟨rfl, rfl⟩ := Prod.mk.inj (toLex.injective h)
  rfl

instance : LinearOrder UtcInstant := LinearOrder.lift' key key_injective

theorem lt_iff {a b : UtcInstant} :
    a < b ↔ a.second < b.second ∨ a.second = b.second ∧ a.frac < b.frac :=
  Prod.Lex.toLex_lt_toLex

end UtcInstant

/-- Seconds since the first day of the year 0. -/
def calendarSecond (second : ℤ) : ℕ := (second + 62167219200).toNat

/-- Year, month and day, and hour, minute and second, where a leap second is the second 60. -/
def stampFields (second : ℤ) (frac : ℕ) : List ℕ :=
  let date := dateOfDay (calendarSecond second / 86400)
  let clock := calendarSecond second % 86400
  [date.year, date.month, date.day] ++
    [clock / 3600, clock / 60 % 60, clock % 60 + frac / 10 ^ 9]

def stampLayout : List (ℕ × List Char) :=
  [(4, ['-']), (2, ['-']), (2, ['T']), (2, [':']), (2, [':']), (2, [])]

/-- The first digits of a fraction of a second, behind a point. -/
def fractionText (places nanos : ℕ) : Text :=
  if places = 0 then [] else '.' :: digits places (nanos / 10 ^ (9 - places))

def stampText (places : ℕ) (second : ℤ) (frac : ℕ) : Text :=
  layoutText stampLayout (stampFields second frac)
    (fractionText places (frac % 10 ^ 9) ++ "+00:00".toList)

/-- `SecondsFormat::AutoSi`. -/
def autoSi (nanos : ℕ) : ℕ :=
  if nanos = 0 then 0
  else if nanos % 10 ^ 6 = 0 then 3
  else if nanos % 10 ^ 3 = 0 then 6
  else 9

namespace UtcInstant

variable (t : UtcInstant)

def nanos : ℕ := t.frac % 10 ^ 9

/-- `DateTime::<Utc>::to_rfc3339`. -/
def toRfc3339 : Text := stampText (autoSi t.nanos) t.second t.frac

/-- `datetime.isoformat` of a time in UTC with whole microseconds. -/
def isoformat : Text := stampText (if t.nanos = 0 then 0 else 6) t.second t.frac

/-- A time that the legacy service can hold. -/
def Micro : Prop := t.frac < 10 ^ 9 ∧ t.frac % 10 ^ 3 = 0

/-- The texts in which a time is stored. -/
inductive Written : Text → Prop
  | chrono : Written t.toRfc3339
  | legacy (micro : t.Micro) : Written t.isoformat

end UtcInstant

/-- Texts are compared by their bytes. -/
def TextBefore (s t : Text) : Prop := encodeUtf8 s < encodeUtf8 t

instance : DecidableRel TextBefore :=
  fun s t => inferInstanceAs (Decidable (encodeUtf8 s < encodeUtf8 t))

section Fields

variable {a b : UtcInstant}

theorem fits_stampFields (t : UtcInstant) : Fits stampLayout (stampFields t.second t.frac) := by
  obtain ⟨hlow, hhigh⟩ := t.inYears
  have hday : calendarSecond t.second / 86400 < daysBeforeYear 10000 := by
    rw [calendarSecond, daysBeforeYear]
    omega
  have hyear := dateOfDay_year hday
  obtain ⟨hmonth, hposition⟩ := dateOfDay_month_day (calendarSecond t.second / 86400)
  have hfrac : t.frac < 2 * 10 ^ 9 := t.representable.elim (fun h => by omega) fun h => h.2
  refine .cons hyear (.cons ?_ (.cons ?_ (.cons ?_ (.cons ?_ (.cons ?_ .nil)))))
  · exact Nat.lt_of_le_of_lt hmonth (by decide)
  · exact Nat.lt_of_le_of_lt hposition (by decide)
  · dsimp only
    omega
  · dsimp only
    omega
  · dsimp only
    omega

/-- Hour, minute and second of a later second of one day. -/
theorem clock_lt {m n x y : ℕ} (h : m < n) (hx : m / 60 = n / 60 → x = 0) :
    [m / 3600, m / 60 % 60, m % 60 + x] < [n / 3600, n / 60 % 60, n % 60 + y] := by
  rw [List.cons_lt_cons_iff]
  rcases (Nat.div_le_div_right (c := 3600) h.le).lt_or_eq with hhour | hhour
  · exact .inl hhour
  refine .inr ⟨hhour, ?_⟩
  rw [List.cons_lt_cons_iff]
  rcases (Nat.div_le_div_right (c := 60) h.le).lt_or_eq with hminute | hminute
  · left
    omega
  refine .inr ⟨congrArg (· % 60) hminute, ?_⟩
  rw [List.cons_lt_cons_iff]
  left
  have hsecond := mod_lt_mod h hminute
  have hnone := hx hminute
  omega

/-- A later time has later fields, or more nanoseconds. -/
theorem stampFields_lt (h : a < b) :
    stampFields a.second a.frac < stampFields b.second b.frac ∨
      stampFields a.second a.frac = stampFields b.second b.frac ∧ a.nanos < b.nanos := by
  obtain ⟨hlow, -⟩ := a.inYears
  rcases UtcInstant.lt_iff.mp h with hsecond | ⟨hsecond, hfrac⟩
  · left
    have hcalendar : calendarSecond a.second < calendarSecond b.second := by
      rw [calendarSecond, calendarSecond]
      omega
    rcases (Nat.div_le_div_right (c := 86400) hcalendar.le).lt_or_eq with hday | hday
    · exact append_lt_append rfl (dateOfDay_lt hday)
    · rw [stampFields, stampFields, hday]
      apply List.append_left_lt
      apply clock_lt (mod_lt_mod hcalendar hday)
      intro hminute
      -- The second 59 of a minute is its last one, so that a leap second does not come before.
      have hframe : a.second % 60 ≠ 59 := by
        rw [calendarSecond, calendarSecond] at hminute hcalendar hday
        omega
      have hfrac : a.frac < 10 ^ 9 := a.representable.resolve_right fun hleap => hframe hleap.1
      omega
  · rw [stampFields, stampFields, ← hsecond]
    rcases (Nat.div_le_div_right (c := 10 ^ 9) hfrac.le).lt_or_eq with hleap | hleap
    · left
      apply List.append_left_lt
      rw [List.cons_lt_cons_iff, List.cons_lt_cons_iff, List.cons_lt_cons_iff]
      exact .inr ⟨rfl, .inr ⟨rfl, .inl (Nat.add_lt_add_left hleap _)⟩⟩
    · right
      rw [hleap]
      exact ⟨rfl, mod_lt_mod hfrac hleap⟩

end Fields

section Texts

variable {a b : UtcInstant} {k l m n : ℕ} {s t : Text}

theorem digitChar_ascii (n : ℕ) : (Nat.digitChar n).toNat < 128 := by
  rcases Nat.lt_or_ge n 16 with h | h
  · revert n
    decide
  · rw [Nat.digitChar_eq_star.mpr h]
    decide

theorem digits_ascii (width n : ℕ) : ∀ c ∈ digits width n, c.toNat < 128 := by
  induction width generalizing n with
  | zero =>
    intro c hc
    cases hc
  | succ width ih =>
    rw [digits]
    exact List.forall_mem_cons.mpr ⟨digitChar_ascii _, ih _⟩

theorem layoutText_ascii {layout : List (ℕ × List Char)}
    (hlayout : ∀ field ∈ layout, ∀ c ∈ field.2, c.toNat < 128) (ns : List ℕ) {tail : List Char}
    (htail : ∀ c ∈ tail, c.toNat < 128) : ∀ c ∈ layoutText layout ns tail, c.toNat < 128 := by
  induction layout generalizing ns with
  | nil => exact htail
  | cons field layout ih =>
    cases ns with
    | nil => exact htail
    | cons n ns =>
      obtain ⟨hfield, hlayout⟩ := List.forall_mem_cons.mp hlayout
      rw [layoutText]
      exact List.forall_mem_append.mpr
        ⟨digits_ascii _ _, List.forall_mem_append.mpr ⟨hfield, ih hlayout ns⟩⟩

theorem stampText_ascii (places : ℕ) (second : ℤ) (frac : ℕ) :
    ∀ c ∈ stampText places second frac, c.toNat < 128 := by
  have hfraction : ∀ c ∈ fractionText places (frac % 10 ^ 9), c.toNat < 128 := by
    rw [fractionText]
    split
    · intro c hc
      cases hc
    · exact List.forall_mem_cons.mpr ⟨by decide, digits_ascii _ _⟩
  apply layoutText_ascii (by decide)
  exact List.forall_mem_append.mpr ⟨hfraction, by decide⟩

/-- ASCII texts compare like their bytes. -/
theorem textBefore_of_lt (hs : ∀ c ∈ s, c.toNat < 128) (ht : ∀ c ∈ t, c.toNat < 128)
    (h : s < t) : TextBefore s t := by
  rw [TextBefore, encodeUtf8, encodeUtf8]
  induction s generalizing t with
  | nil =>
    cases t with
    | nil => cases h
    | cons d t =>
      rw [List.flatMap_cons, utf8EncodeChar_ascii (List.forall_mem_cons.mp ht).1]
      exact .nil
  | cons c s ih =>
    cases t with
    | nil => cases h
    | cons d t =>
      obtain ⟨hc, hs⟩ := List.forall_mem_cons.mp hs
      obtain ⟨hd, htail⟩ := List.forall_mem_cons.mp ht
      rw [List.flatMap_cons, List.flatMap_cons, utf8EncodeChar_ascii hc, utf8EncodeChar_ascii hd,
        List.singleton_append, List.singleton_append, List.cons_lt_cons_iff]
      rcases List.cons_lt_cons_iff.mp h with hlt | ⟨rfl, hlt⟩
      · left
        rw [UInt8.lt_iff_toNat_lt, UInt8.toNat_ofNat_of_lt' (hc.trans (by decide)),
          UInt8.toNat_ofNat_of_lt' (hd.trans (by decide))]
        exact hlt
      · exact .inr ⟨rfl, ih hs htail hlt⟩

/-- The plus sign behind a fraction comes before the point and before every digit. -/
theorem fractionText_lt (hk : k ≤ 9) (hl : l ≤ 9) (hm : 10 ^ (9 - k) ∣ m) (hn : 10 ^ (9 - l) ∣ n)
    (h : m < n ∨ m = n ∧ k < l) (hwidth : n < 10 ^ 9) :
    fractionText k m ++ "+00:00".toList < fractionText l n ++ "+00:00".toList := by
  have hplace : l ≠ 0 := by
    rintro rfl
    have hzero : n = 0 := Nat.eq_zero_of_dvd_of_lt hn hwidth
    omega
  rw [fractionText, fractionText, if_neg hplace]
  by_cases hnone : k = 0
  · rw [if_pos hnone]
    exact List.cons_lt_cons_iff.mpr (.inl (by decide))
  · rw [if_neg hnone, List.cons_append, List.cons_append, List.cons_lt_cons_iff]
    exact .inr ⟨rfl, truncated_lt (by decide) hk hl hm hn h hwidth⟩

/-- Texts that show all digits of their fractions compare like the times, and for one time like
the numbers of digits shown. -/
theorem stampText_before (hk : k ≤ 9) (hl : l ≤ 9) (ha : 10 ^ (9 - k) ∣ a.nanos)
    (hb : 10 ^ (9 - l) ∣ b.nanos) (h : a < b ∨ a = b ∧ k < l) :
    TextBefore (stampText k a.second a.frac) (stampText l b.second b.frac) := by
  apply textBefore_of_lt (stampText_ascii _ _ _) (stampText_ascii _ _ _)
  have hwidth : b.nanos < 10 ^ 9 := Nat.mod_lt _ (ten_pow_pos 9)
  rcases h with hlt | ⟨rfl, hshorter⟩
  · rcases stampFields_lt hlt with hfields | ⟨hfields, hnanos⟩
    · exact layoutText_lt (fits_stampFields a) (fits_stampFields b) hfields
    · rw [stampText, stampText, hfields]
      apply layoutText_tail (fits_stampFields b)
      exact fractionText_lt hk hl ha hb (.inl hnanos) hwidth
  · apply layoutText_tail (fits_stampFields a)
    exact fractionText_lt hk hl ha hb (.inr ⟨rfl, hshorter⟩) hwidth

theorem autoSi_spec (n : ℕ) : autoSi n ≤ 9 ∧ 10 ^ (9 - autoSi n) ∣ n := by
  rw [autoSi]
  split_ifs with hzero hmilli hmicro
  · rw [hzero]
    exact ⟨by decide, Nat.dvd_zero _⟩
  · exact ⟨by decide, Nat.dvd_of_mod_eq_zero hmilli⟩
  · exact ⟨by decide, Nat.dvd_of_mod_eq_zero hmicro⟩
  · exact ⟨by decide, Nat.one_dvd n⟩

end Texts

/-- The comparisons that the queries make. -/
inductive Comparison
  | lt | le | gt | ge
  deriving DecidableEq

/-- What a comparison says where the order is given by what comes before what. -/
def Comparison.holds {α : Type*} (before : α → α → Prop) : Comparison → α → α → Prop
  | .lt, x, y => before x y
  | .le, x, y => ¬ before y x
  | .gt, x, y => before y x
  | .ge, x, y => ¬ before x y

theorem Comparison.holds_congr {α β : Type*} {before : α → α → Prop} {before' : β → β → Prop}
    {x y : α} {x' y' : β} (op : Comparison) (hxy : before x y ↔ before' x' y')
    (hyx : before y x ↔ before' y' x') : op.holds before x y ↔ op.holds before' x' y' := by
  cases op with
  | lt => exact hxy
  | le => exact not_congr hyx
  | gt => exact hyx
  | ge => exact not_congr hxy

section Comparisons

variable {a b : UtcInstant} {s t : Text} {op : Comparison}

/-- A stored text shows all digits of the fraction, at least as many as `to_rfc3339` shows. -/
theorem UtcInstant.Written.places (h : a.Written s) :
    ∃ k ≤ 9, 10 ^ (9 - k) ∣ a.nanos ∧ autoSi a.nanos ≤ k ∧ s = stampText k a.second a.frac := by
  cases h with
  | chrono => exact ⟨autoSi a.nanos, (autoSi_spec _).1, (autoSi_spec _).2, Nat.le_refl _, rfl⟩
  | legacy micro =>
    obtain ⟨hrange, hdigits⟩ := micro
    rw [← Nat.mod_eq_of_lt hrange] at hdigits
    refine ⟨if a.nanos = 0 then 0 else 6, ?_, ?_, ?_, rfl⟩
    · split_ifs <;> decide
    · split_ifs with hzero
      · rw [hzero]
        exact Nat.dvd_zero _
      · exact Nat.dvd_of_mod_eq_zero hdigits
    · rw [autoSi]
      split_ifs with hzero hmilli hmicro
      · exact Nat.le_refl 0
      · decide
      · exact Nat.le_refl 6
      · exact absurd hdigits hmicro

/-- An earlier time has a smaller text. -/
theorem UtcInstant.Written.before (ha : a.Written s) (hb : b.Written t) (h : a < b) :
    TextBefore s t := by
  obtain ⟨k, hk, hdigits, -, rfl⟩ := ha.places
  obtain ⟨l, hl, hdigits', -, rfl⟩ := hb.places
  exact stampText_before hk hl hdigits hdigits' (.inl h)

/-- Of the texts of one time that of `to_rfc3339` comes first. -/
theorem UtcInstant.Written.eq_or_before (h : a.Written s) :
    s = a.toRfc3339 ∨ TextBefore a.toRfc3339 s := by
  obtain ⟨k, hk, hdigits, hle, rfl⟩ := h.places
  obtain ⟨hplaces, hchrono⟩ := autoSi_spec a.nanos
  rcases hle.lt_or_eq with hlt | heq
  · exact .inr (stampText_before hplaces hk hchrono hdigits (.inr ⟨rfl, hlt⟩))
  · left
    rw [UtcInstant.toRfc3339, heq]

theorem TextBefore.asymm (h : TextBefore s t) : ¬ TextBefore t s := List.lt_asymm h

theorem TextBefore.irrefl (s : Text) : ¬ TextBefore s s := List.lt_irrefl _

theorem toRfc3339_inj : a.toRfc3339 = b.toRfc3339 ↔ a = b := by
  constructor
  · intro h
    rcases lt_trichotomy a b with hlt | heq | hgt
    · exact absurd (h ▸ UtcInstant.Written.before .chrono .chrono hlt) (TextBefore.irrefl _)
    · exact heq
    · exact absurd (h ▸ UtcInstant.Written.before .chrono .chrono hgt) (TextBefore.irrefl _)
  · exact congrArg UtcInstant.toRfc3339

theorem before_iff_of_ne (ha : a.Written s) (hb : b.Written t) (h : a ≠ b) :
    TextBefore s t ↔ a < b := by
  constructor
  · intro htext
    by_contra hle
    have hgt : b < a := lt_of_le_of_ne (not_lt.mp hle) h.symm
    exact htext.asymm (hb.before ha hgt)
  · intro hlt
    exact ha.before hb hlt

/-- A comparison of two texts is that of the times, if the times differ. -/
theorem holds_of_ne (op : Comparison) (ha : a.Written s) (hb : b.Written t) (h : a ≠ b) :
    op.holds TextBefore s t ↔ op.holds (· < ·) a b :=
  op.holds_congr (before_iff_of_ne ha hb h) (before_iff_of_ne hb ha h.symm)

/-- A comparison with the text of the same time is that of the times, unless the stored text shows
zeros that `to_rfc3339` leaves out and the comparison asks which one is later. -/
theorem holds_self (h : a.Written s) :
    (op.holds TextBefore s a.toRfc3339 ↔ op.holds (· < ·) a a) ↔
      (op ∈ [.le, .gt] → s = a.toRfc3339) := by
  have hself := lt_irrefl a
  rcases h.eq_or_before with rfl | hlater
  · have hnone : TextBefore a.toRfc3339 a.toRfc3339 ↔ a < a :=
      iff_of_false (TextBefore.irrefl _) hself
    exact iff_of_true (op.holds_congr hnone hnone) fun _ => rfl
  · have hne : s ≠ a.toRfc3339 := by
      rintro rfl
      exact TextBefore.irrefl _ hlater
    cases op with
    | lt =>
      refine iff_of_true (iff_of_false hlater.asymm hself) ?_
      intro hop
      exact absurd hop (by decide)
    | le =>
      apply iff_of_false
      · intro hiff
        exact hiff.mpr hself hlater
      · intro heq
        exact hne (heq (by decide))
    | gt =>
      apply iff_of_false
      · intro hiff
        exact hself (hiff.mp hlater)
      · intro heq
        exact hne (heq (by decide))
    | ge =>
      refine iff_of_true (iff_of_true hlater.asymm hself) ?_
      intro hop
      exact absurd hop (by decide)

/-- The legacy service shows zeros that `to_rfc3339` leaves out behind whole milliseconds. -/
theorem isoformat_eq_iff {t : UtcInstant} (h : t.Micro) :
    t.isoformat = t.toRfc3339 ↔ t.nanos = 0 ∨ t.nanos % 10 ^ 6 ≠ 0 := by
  obtain ⟨hrange, hdigits⟩ := h
  rw [← Nat.mod_eq_of_lt hrange] at hdigits
  rw [UtcInstant.isoformat, UtcInstant.toRfc3339, autoSi]
  by_cases hzero : t.nanos = 0
  · rw [if_pos hzero, if_pos hzero]
    exact iff_of_true rfl (.inl hzero)
  rw [if_neg hzero, if_neg hzero]
  by_cases hmilli : t.nanos % 10 ^ 6 = 0
  · rw [if_pos hmilli]
    apply iff_of_false
    · intro heq
      have hchrono : 10 ^ (9 - 3) ∣ t.nanos := Nat.dvd_of_mod_eq_zero hmilli
      have hbefore : TextBefore (stampText 3 t.second t.frac) (stampText 6 t.second t.frac) :=
        stampText_before (by decide) (by decide) hchrono (Nat.dvd_of_mod_eq_zero hdigits)
          (.inr ⟨rfl, by decide⟩)
      exact TextBefore.irrefl _ (heq ▸ hbefore)
    · exact not_or.mpr ⟨hzero, not_not_intro hmilli⟩
  · rw [if_neg hmilli]
    exact iff_of_true (if_pos hdigits ▸ rfl) (.inr hmilli)

/-- Earlier times have smaller texts, and the texts of `to_rfc3339` tell times apart. A comparison
of a stored text with such a text decides that of the times, but for texts of the legacy service
with zeros behind whole milliseconds: of the same time they count as later. -/
theorem storedText_order :
    (∀ a b s t, UtcInstant.Written a s → UtcInstant.Written b t → a < b → TextBefore s t) ∧
      (∀ a b : UtcInstant, a.toRfc3339 = b.toRfc3339 ↔ a = b) ∧
      (∀ (op : Comparison) (a b : UtcInstant) (s : Text), a.Written s →
        ((op.holds TextBefore s b.toRfc3339 ↔ op.holds (· < ·) a b) ↔
          (a = b → op ∈ [.le, .gt] → s = b.toRfc3339))) ∧
      ∀ t : UtcInstant, t.Micro →
        (t.isoformat = t.toRfc3339 ↔ t.nanos = 0 ∨ t.nanos % 10 ^ 6 ≠ 0) := by
  refine ⟨?_, ?_, ?_, ?_⟩
  · intro a b s t ha hb h
    exact ha.before hb h
  · intro a b
    exact toRfc3339_inj
  · intro op a b s hs
    by_cases hab : a = b
    · obtain rfl := hab
      rw [holds_self hs]
      exact ⟨fun h _ => h, fun h => h rfl⟩
    · exact iff_of_true (holds_of_ne op hs .chrono hab) fun heq => absurd heq hab
  · intro t ht
    exact isoformat_eq_iff ht

/-- Half a second after the year 2026 began. -/
def halfSecond : UtcInstant where
  second := 1767225600
  frac := 500000000
  representable := by decide
  inYears := by decide

theorem legacyText_before :
    TextBefore halfSecond.isoformat (UtcInstant.toRfc3339 ⟨1767225600, 500000001, by decide,
      by decide⟩) :=
  storedText_order.1 halfSecond _ _ _ (.legacy ⟨by decide, by decide⟩) .chrono (by decide)

/-- A test time of the legacy service is not due at that very time. -/
theorem legacyText_not_due :
    halfSecond.Written "2026-01-01T00:00:00.500000+00:00".toList ∧
      halfSecond.toRfc3339 = "2026-01-01T00:00:00.500+00:00".toList ∧
      ¬ Comparison.le.holds TextBefore "2026-01-01T00:00:00.500000+00:00".toList
        halfSecond.toRfc3339 ∧
      Comparison.le.holds (· < ·) halfSecond halfSecond := by
  have hlegacy : halfSecond.isoformat = "2026-01-01T00:00:00.500000+00:00".toList := by decide
  have hchrono : halfSecond.toRfc3339 = "2026-01-01T00:00:00.500+00:00".toList := by decide
  refine ⟨?_, hchrono, ?_, lt_irrefl halfSecond⟩
  · rw [← hlegacy]
    exact .legacy ⟨by decide, by decide⟩
  · rw [hchrono]
    exact not_not_intro (by decide)

end Comparisons

section Columns

variable {F : Type} {x y now : ℤ}

/-- The times of the years 0 to 9999. -/
def InYears (time : ℤ) : Prop :=
  -62167219200000000000 ≤ time ∧ time < 253402300800000000000

def UtcInstant.ofTime (time : ℤ) (h : InYears time) : UtcInstant where
  second := time / 10 ^ 9
  frac := (time % 10 ^ 9).toNat
  representable := by
    left
    omega
  inYears := by
    obtain ⟨hlow, hhigh⟩ := h
    omega

/-- The text that the service stores. -/
def timeText (time : Time) : Text :=
  let frac := (time % 10 ^ 9).toNat
  stampText (autoSi (frac % 10 ^ 9)) (time / 10 ^ 9) frac

theorem timeText_eq (h : InYears x) : timeText x = (UtcInstant.ofTime x h).toRfc3339 := rfl

theorem ofTime_lt (hx : InYears x) (hy : InYears y) :
    UtcInstant.ofTime x hx < UtcInstant.ofTime y hy ↔ x < y := by
  rw [UtcInstant.lt_iff, UtcInstant.ofTime, UtcInstant.ofTime]
  dsimp only
  omega

/-- The service's own texts compare like the times. -/
theorem timeText_before (hx : InYears x) (hy : InYears y) :
    TextBefore (timeText x) (timeText y) ↔ x < y := by
  rw [← ofTime_lt hx hy, timeText_eq hx, timeText_eq hy]
  rcases eq_or_ne (UtcInstant.ofTime x hx) (UtcInstant.ofTime y hy) with heq | hne
  · rw [heq]
    exact iff_of_false (TextBefore.irrefl _) (lt_irrefl _)
  · exact holds_of_ne .lt .chrono .chrono hne

/-- `column IS NULL OR column <= ?`. -/
theorem all_le_timeText {column : Option Time} (hcolumn : ∀ time ∈ column, InYears time)
    (hnow : InYears now) :
    (column.all fun time => decide (time ≤ now)) =
      column.all fun time => !decide (TextBefore (timeText now) (timeText time)) := by
  cases column with
  | none => rfl
  | some time =>
    rw [Option.all_some, Option.all_some, ← decide_not]
    apply decide_eq_decide.mpr
    rw [timeText_before hnow (hcolumn time rfl), not_lt]

namespace Node

variable {row : Node F}

theorem due_eq_text (hrow : ∀ time ∈ row.nextTestAt, InYears time) (hnow : InYears now) :
    row.due now =
      row.nextTestAt.all fun time => !decide (TextBefore (timeText now) (timeText time)) := by
  rw [← all_le_timeText hrow hnow, due]
  cases row.nextTestAt <;> rfl

theorem leaseFree_eq_text (hrow : ∀ time ∈ row.testLeaseUntil, InYears time)
    (hnow : InYears now) :
    row.leaseFree now =
      row.testLeaseUntil.all fun time => !decide (TextBefore (timeText now) (timeText time)) := by
  rw [← all_le_timeText hrow hnow, leaseFree]
  cases row.testLeaseUntil <;> rfl

theorem leaseExpired_eq_text (hrow : ∀ time ∈ row.publicationLeaseUntil, InYears time)
    (hnow : InYears now) :
    row.leaseExpired now = row.publicationLeaseUntil.all fun time =>
      !decide (TextBefore (timeText now) (timeText time)) := by
  rw [← all_le_timeText hrow hnow, leaseExpired]
  cases row.publicationLeaseUntil <;> rfl

end Node

end Columns

end ProxyFleet
