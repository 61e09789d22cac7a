import Mathlib.Data.List.TakeWhile
import SchemaDoc.Proofs.Shortest

/-!
# Numerals

What numerals denote, as rational numbers: digits with or without a point (`Plain`), and the same
with an exponent of ten (`Scientific`). A signed numeral spells the double nearest to it (`Spells`),
and a text is read as what is left of it without the white space at its ends (`ofText_eq_iff`).

Reading agrees with that in both directions (`exists_read_of_denotes`, `denotes_of_read`). Both
notations of a decimal denote that decimal (`Decimal.plain_positional`,
`Decimal.scientific_exponential`), and the decimal of a double rounds to it. So the text of a number
is read as that number, down to the last bit (`Double.number_text_loses_nothing`).
-/

namespace SchemaDoc

namespace Numeral

/-! ### The numbers that numerals denote -/

/-- Characters that are all decimal digits. -/
def AllDigits (cs : List Char) : Prop := ∀ c ∈ cs, c.isDigit = true

/-- The natural number that decimal digits spell. -/
def natural (cs : List Char) : Nat := Nat.ofDigitChars 10 cs 0

/-- **Plain numerals** and what they denote: digits, perhaps with a point in front of them, among them
or behind them. -/
inductive Plain : List Char → ℚ → Prop
  | whole {ds : List Char} (hne : ds ≠ []) (hds : AllDigits ds) : Plain ds (natural ds)
  | point {ds fs : List Char} (hne : ds ++ fs ≠ []) (hds : AllDigits ds) (hfs : AllDigits fs) :
    Plain (ds ++ '.' :: fs) (natural ds + natural fs / 10 ^ fs.length)

/-- A sign that may be left out, and whether it is a minus. -/
inductive Sign : List Char → Bool → Prop
  | none : Sign [] false
  | plus : Sign ['+'] false
  | minus : Sign ['-'] true

/-- The exponent of ten behind a numeral. -/
inductive Exponent : List Char → ℤ → Prop
  | mk {mark : Char} {sign ds : List Char} {negative : Bool} (hmark : mark = 'e' ∨ mark = 'E')
    (hsign : Sign sign negative) (hne : ds ≠ []) (hds : AllDigits ds) :
    Exponent (mark :: (sign ++ ds)) (if negative then -natural ds else natural ds)

/-- **Numerals with an exponent** and what they denote. -/
inductive Scientific : List Char → ℚ → Prop
  | mk {cs t : List Char} {q : ℚ} {k : ℤ} (h : Plain cs q) (ht : Exponent t k) :
    Scientific (cs ++ t) (q * 10 ^ k)

/-- What an unsigned numeral denotes. -/
def Denotes (cs : List Char) (q : ℚ) : Prop := Plain cs q ∨ Scientific cs q

/-! ### Digits -/

theorem digitsValue_eq (cs : List Char) : Decimal.digitsValue cs = natural cs := by
  rw [natural, Nat.ofDigitChars_eq_foldl]
  rfl

theorem natural_append (cs ds : List Char) :
    natural (cs ++ ds) = natural cs * 10 ^ ds.length + natural ds := by
  rw [natural, Nat.ofDigitChars_append, Nat.ofDigitChars_eq_ofDigitChars_zero, mul_comm]
  rfl

theorem natural_zeros_append (n : Nat) (cs : List Char) :
    natural (List.replicate n '0' ++ cs) = natural cs := by
  rw [natural, Nat.ofDigitChars_append, Nat.ofDigitChars_replicate_zero, Nat.mul_zero, natural]

theorem natural_append_zeros (n : Nat) (cs : List Char) :
    natural (cs ++ List.replicate n '0') = natural cs * 10 ^ n := by
  rw [natural, Nat.ofDigitChars_append, Nat.ofDigitChars_replicate_zero, mul_comm, natural]

theorem natural_toDigits (n : Nat) : natural (Nat.toDigits 10 n) = n :=
  Nat.ofDigitChars_ten_toDigits

theorem allDigits_toDigits (n : Nat) : AllDigits (Nat.toDigits 10 n) :=
  fun _ hc => Nat.isDigit_of_mem_toDigits (by norm_num) (by norm_num) hc

theorem dropWhile_append {p : Char → Bool} {cs t : List Char} (hcs : ∀ c ∈ cs, p c = true)
    (ht : ∀ c ∈ t.head?, p c = false) : (cs ++ t).dropWhile p = t := by
  rw [List.dropWhile_append_of_pos hcs]
  cases t with
  | nil => rfl
  | cons c t => rw [List.dropWhile_cons_of_neg (by simp [ht c rfl])]

namespace AllDigits

variable {cs ds : List Char}

theorem append (hcs : AllDigits cs) (hds : AllDigits ds) : AllDigits (cs ++ ds) :=
  List.forall_mem_append.mpr ⟨hcs, hds⟩

theorem of_append (h : AllDigits (cs ++ ds)) : AllDigits cs ∧ AllDigits ds :=
  List.forall_mem_append.mp h

theorem zeros (n : Nat) : AllDigits (List.replicate n '0') := by
  intro c hc
  rw [List.eq_of_mem_replicate hc]
  rfl

/-- Digits end in front of the first character that is none. -/
theorem span_append (h : AllDigits ds) {t : List Char} (ht : ∀ c ∈ t.head?, c.isDigit = false) :
    (ds ++ t).takeWhile Text.isAsciiDigit = ds ∧ (ds ++ t).dropWhile Text.isAsciiDigit = t := by
  have hdrop := dropWhile_append (p := Text.isAsciiDigit) h ht
  have hspan := (ds ++ t).takeWhile_append_dropWhile (p := Text.isAsciiDigit)
  rw [hdrop] at hspan
  exact ⟨List.append_cancel_right hspan, hdrop⟩

theorem takeWhile (cs : List Char) : AllDigits (cs.takeWhile Text.isAsciiDigit) :=
  fun _ hc => List.mem_takeWhile_imp hc

theorem isEmpty_or_not_all_eq (h : AllDigits ds) (hne : ds ≠ []) :
    (ds.isEmpty || !ds.all Text.isAsciiDigit) = false := by
  have hall : ds.all Text.isAsciiDigit = true := List.all_eq_true.mpr h
  simp [hne, hall]

end AllDigits

/-! ### Reading -/

theorem readExponent_of_exponent {t : List Char} {k : ℤ} (h : Exponent t k) :
    Decimal.readExponent t = some k := by
  obtain @⟨mark, sign, ds, negative, hmark, hsign, hne, hds⟩ := h
  have hmark' : (mark == 'e' || mark == 'E') = true := by simpa using hmark
  simp only [Decimal.readExponent, hmark', if_true]
  cases hsign with
  | minus => simp [hds.isEmpty_or_not_all_eq hne, digitsValue_eq]
  | plus => simp [hds.isEmpty_or_not_all_eq hne, digitsValue_eq]
  | none =>
    -- A digit is no sign, so that the match leaves the digits alone.
    split
    next ds' heq => exact absurd (hds '-' (by simp_all)) (by decide)
    next ds' heq => exact absurd (hds '+' (by simp_all)) (by decide)
    next => simp [hds.isEmpty_or_not_all_eq hne, digitsValue_eq]

theorem digits_of_guard {ds : List Char} {k k' : ℤ}
    (h : (if (ds.isEmpty || !ds.all Text.isAsciiDigit) = true then none else some k') = some k) :
    ds ≠ [] ∧ AllDigits ds ∧ k' = k := by
  split at h
  next => cases h
  next hds =>
    rw [Bool.or_eq_true, not_or, List.isEmpty_iff, Bool.not_eq_true', Bool.not_eq_false,
      List.all_eq_true] at hds
    exact ⟨hds.1, hds.2, Option.some.inj h⟩

theorem exponent_of_readExponent {mark : Char} {t : List Char} {k : ℤ}
    (h : Decimal.readExponent (mark :: t) = some k) : Exponent (mark :: t) k := by
  simp only [Decimal.readExponent, digitsValue_eq] at h
  split at h
  next hmark =>
    rw [Bool.or_eq_true, beq_iff_eq, beq_iff_eq] at hmark
    split at h
    all_goals obtain ⟨hne, hds, rfl⟩ := digits_of_guard h
    next => exact .mk hmark .minus hne hds
    next => exact .mk hmark .plus hne hds
    next => exact .mk hmark .none hne hds
  next => cases h

/-- A text that cannot go on a plain numeral. -/
def Ends (t : List Char) : Prop := ∀ c ∈ t.head?, c.isDigit = false ∧ c ≠ '.'

theorem ends_nil : Ends [] := by
  rintro c ⟨⟩

theorem Exponent.ends {t : List Char} {k : ℤ} (h : Exponent t k) : Ends t := by
  obtain ⟨rfl | rfl, -, -, -⟩ := h
  all_goals
    rintro c ⟨⟩
    decide

/-- The digits after the point make the exponent smaller. -/
theorem value_point (ds fs : List Char) (k : ℤ) :
    Decimal.value ⟨natural (ds ++ fs), k - fs.length⟩ =
      (natural ds + natural fs / 10 ^ fs.length) * 10 ^ k := by
  rw [Decimal.value, natural_append, zpow_sub₀ (by norm_num), zpow_natCast]
  push_cast
  field_simp

theorem read_append_of_plain {cs t : List Char} {q : ℚ} {k : ℤ} (h : Plain cs q) (ht : Ends t)
    (hk : Decimal.readExponent t = some k) :
    ∃ d, Decimal.read (cs ++ t) = some d ∧ d.value = q * 10 ^ k := by
  cases h with
  | whole hne hds =>
    obtain ⟨htake, hdrop⟩ := hds.span_append fun c hc => (ht c hc).1
    refine ⟨⟨natural cs, k⟩, ?_, rfl⟩
    simp only [Decimal.read, htake, hdrop]
    split
    next rest => exact absurd rfl (ht '.' rfl).2
    next => simp [hne, hk, digitsValue_eq]
  | point hne hds hfs =>
    rename_i ds fs
    obtain ⟨htake, hdrop⟩ := hds.span_append (t := '.' :: (fs ++ t)) (by rintro c ⟨⟩; decide)
    obtain ⟨htake', hdrop'⟩ := hfs.span_append fun c hc => (ht c hc).1
    refine ⟨⟨natural (ds ++ fs), k - fs.length⟩, ?_, ?_⟩
    · have hne' : (ds.isEmpty && fs.isEmpty) = false := by
        simpa [← Bool.not_eq_true] using hne
      rw [List.append_assoc, List.cons_append]
      simp only [Decimal.read, htake, hdrop, htake', hdrop', hne', hk, digitsValue_eq]
      rfl
    · exact value_point ds fs k

theorem exists_read_of_denotes {cs : List Char} {q : ℚ} (h : Denotes cs q) :
    ∃ d, Decimal.read cs = some d ∧ d.value = q := by
  obtain h | h := h
  · simpa using read_append_of_plain h ends_nil rfl
  · obtain ⟨h, ht⟩ := h
    exact read_append_of_plain h ht.ends (readExponent_of_exponent ht)

theorem denotes_append {cs t : List Char} {q : ℚ} {k : ℤ} (h : Plain cs q)
    (hk : Decimal.readExponent t = some k) : Denotes (cs ++ t) (q * 10 ^ k) := by
  cases t with
  | nil =>
    cases hk
    rw [List.append_nil, zpow_zero, mul_one]
    exact .inl h
  | cons mark t => exact .inr (.mk h (exponent_of_readExponent hk))

theorem denotes_of_read {cs : List Char} {d : Decimal} (h : Decimal.read cs = some d) :
    Denotes cs d.value := by
  have hds := AllDigits.takeWhile cs
  rw [← cs.takeWhile_append_dropWhile (p := Text.isAsciiDigit)]
  -- The text is cut where its first digits end, and once more behind the point, if there is one.
  simp only [Decimal.read, digitsValue_eq] at h
  generalize cs.takeWhile Text.isAsciiDigit = ds at h hds ⊢
  generalize cs.dropWhile Text.isAsciiDigit = rest at h ⊢
  split at h
  next rest =>
    have hfs := AllDigits.takeWhile rest
    rw [← rest.takeWhile_append_dropWhile (p := Text.isAsciiDigit), ← List.cons_append,
      ← List.append_assoc]
    split at h
    next => cases h
    next hne =>
      obtain ⟨k, hk, rfl⟩ := Option.map_eq_some_iff.mp h
      rw [value_point]
      exact denotes_append (.point (by simpa using hne) hds hfs) hk
  next =>
    split at h
    next => cases h
    next hne =>
      obtain ⟨k, hk, rfl⟩ := Option.map_eq_some_iff.mp h
      rw [List.append_nil, List.length_nil, Nat.cast_zero, sub_zero]
      exact denotes_append (.whole (by simpa using hne) hds) hk

/-! ### Writing -/

theorem plain_point {ds fs : List Char} (hne : ds ++ fs ≠ []) (hds : AllDigits ds)
    (hfs : AllDigits fs) :
    Plain (ds ++ '.' :: fs) (Decimal.value ⟨natural (ds ++ fs), -fs.length⟩) := by
  have hvalue := value_point ds fs 0
  rw [zero_sub, zpow_zero, mul_one] at hvalue
  exact hvalue ▸ .point hne hds hfs

section Layouts

variable {cs : List Char} (hcs : AllDigits cs)
include hcs

theorem plain_after_zeros (n : Nat) :
    Plain ('0' :: '.' :: (List.replicate n '0' ++ cs))
      (Decimal.value ⟨natural cs, -(n + cs.length : Nat)⟩) := by
  have hplain := plain_point (List.cons_ne_nil '0' _) (AllDigits.zeros 1)
    ((AllDigits.zeros n).append hcs)
  rwa [natural_zeros_append, natural_zeros_append, List.length_append, List.length_replicate]
    at hplain

theorem plain_before_zeros (hne : cs ≠ []) (n : Nat) :
    Plain (cs ++ List.replicate n '0') (Decimal.value ⟨natural cs, n⟩) := by
  have hplain := Plain.whole (List.append_ne_nil_of_left_ne_nil hne _)
    (hcs.append (AllDigits.zeros n))
  rwa [natural_append_zeros, Nat.cast_mul, Nat.cast_pow, ← zpow_natCast] at hplain

theorem plain_around_point (hne : cs ≠ []) (n : Nat) :
    Plain (cs.take n ++ '.' :: cs.drop n) (Decimal.value ⟨natural cs, -(cs.length - n : Nat)⟩) := by
  rw [← cs.take_append_drop n] at hne hcs
  have hplain := plain_point hne hcs.of_append.1 hcs.of_append.2
  rwa [cs.take_append_drop n, List.length_drop] at hplain

end Layouts

end Numeral

namespace Decimal

open Numeral

variable (d : Decimal)

theorem natural_digitChars : natural d.digitChars = d.digits := natural_toDigits d.digits

theorem allDigits_digitChars : AllDigits d.digitChars := allDigits_toDigits d.digits

theorem digitChars_ne_nil : d.digitChars ≠ [] := Nat.toDigits_ne_nil

/-- Positional notation denotes the decimal. -/
theorem plain_positional : Plain d.positional d.value := by
  have hcs := d.allDigits_digitChars
  have hne := d.digitChars_ne_nil
  simp only [positional, leading, Int.sub_add_cancel]
  split
  next hpoint =>
    have hplain := plain_after_zeros hcs (-(d.exponent + d.digitChars.length)).toNat
    have hexponent : -(((-(d.exponent + d.digitChars.length)).toNat + d.digitChars.length : Nat) : ℤ)
        = d.exponent := by omega
    rwa [natural_digitChars, hexponent] at hplain
  next hpoint =>
    split
    next hle =>
      have hplain := plain_before_zeros hcs hne
        ((d.exponent + d.digitChars.length).toNat - d.digitChars.length)
      have hexponent : (((d.exponent + d.digitChars.length).toNat - d.digitChars.length : Nat) : ℤ)
          = d.exponent := by omega
      rwa [natural_digitChars, hexponent] at hplain
    next hlt =>
      have hplain := plain_around_point hcs hne (d.exponent + d.digitChars.length).toNat
      have hexponent :
          -((d.digitChars.length - (d.exponent + d.digitChars.length).toNat : Nat) : ℤ)
            = d.exponent := by omega
      rwa [natural_digitChars, hexponent] at hplain

theorem exponent_leading (e : ℤ) :
    Exponent ('e' :: (if e < 0 then '-' else '+') :: Nat.toDigits 10 e.natAbs) e := by
  have hdigits := allDigits_toDigits e.natAbs
  rcases lt_or_ge e 0 with he | he
  · have hexponent := Exponent.mk (.inl rfl) .minus Nat.toDigits_ne_nil hdigits
    rw [natural_toDigits, if_pos rfl, Int.ofNat_natAbs_of_nonpos he.le, neg_neg] at hexponent
    rwa [if_pos he]
  · have hexponent := Exponent.mk (.inl rfl) .plus Nat.toDigits_ne_nil hdigits
    rw [natural_toDigits, if_neg Bool.false_ne_true, Int.natAbs_of_nonneg he] at hexponent
    rwa [if_neg he.not_gt]

/-- A mantissa with one digit before the point, times ten to the exponent of that digit, is the
decimal. -/
theorem scientific_append {cs : List Char}
    (h : Plain cs (value ⟨d.digits, -(d.digitChars.length - 1 : Nat)⟩)) :
    Scientific
      (cs ++ 'e' :: (if d.leading < 0 then '-' else '+') :: Nat.toDigits 10 d.leading.natAbs)
      d.value := by
  convert Scientific.mk h (exponent_leading d.leading) using 1
  have hpos := List.length_pos_iff.mpr d.digitChars_ne_nil
  simp only [value]
  rw [mul_assoc, ← zpow_add₀ (by norm_num), leading]
  congr 2
  omega

/-- Notation with an exponent denotes the decimal. -/
theorem scientific_exponential : Scientific d.exponential d.value := by
  have hcs := d.allDigits_digitChars
  have hne := d.digitChars_ne_nil
  rw [exponential]
  apply scientific_append
  rw [← d.natural_digitChars]
  split
  next c c' cs heq =>
    convert plain_around_point hcs hne 1
    rw [heq]
    rfl
  next hone =>
    have hlength : d.digitChars.length - 1 = 0 := by
      rcases hchars : d.digitChars with _ | ⟨c, _ | ⟨c', cs⟩⟩
      · rfl
      · rfl
      · exact (hone c c' cs hchars).elim
    have hplain := plain_before_zeros hcs hne 0
    rw [List.replicate_zero, List.append_nil, Nat.cast_zero] at hplain
    rwa [hlength, Nat.cast_zero, neg_zero]

/-- The double that a decimal is read as is the nearest one. -/
theorem exists_nearest (negative : Bool) :
    ∃ r, Double.Nearest d.value r ∧ d.toDouble negative = Double.ofRank negative r := by
  obtain ⟨r, hr⟩ := Double.exists_roundsTo d.value_nonneg
  exact ⟨_, hr.nearest, toDouble_eq_of_nearest negative hr.nearest⟩

end Decimal

namespace Numeral

/-! ### Signed numerals and the white space around them -/

/-- What a text without white space at its ends spells: nothing is zero, a numeral is the double
nearest to it, with the sign in front of it. -/
inductive Spells : List Char → Double → Prop
  | empty : Spells [] (Double.zero false)
  | numeral {sign cs : List Char} {negative : Bool} {q : ℚ} {r : Nat} (hsign : Sign sign negative)
    (hcs : Denotes cs q) (hr : Double.Nearest q r) :
    Spells (sign ++ cs) (Double.ofRank negative r)
  | infinity {sign : List Char} {negative : Bool} (hsign : Sign sign negative) :
    Spells (sign ++ "Infinity".toList) (Double.infinity negative)

/-- A text that has the property `P` but for `blank` characters at its ends. -/
def Padded (blank : Char → Bool) (P : List Char → Prop) (cs : List Char) : Prop :=
  ∃ before body after, cs = before ++ body ++ after ∧ (∀ c ∈ before, blank c = true) ∧
    (∀ c ∈ after, blank c = true) ∧ P body

theorem Padded.of_self {blank : Char → Bool} {P : List Char → Prop} {cs : List Char} (h : P cs) :
    Padded blank P cs :=
  ⟨[], cs, [], (List.append_nil cs).symm, List.forall_mem_nil _, List.forall_mem_nil _, h⟩

theorem Plain.head {cs : List Char} {q : ℚ} (h : Plain cs q) :
    ∃ c t, cs = c :: t ∧ (c.isDigit = true ∨ c = '.') := by
  cases h with
  | whole hne hds =>
    obtain ⟨c, t, rfl⟩ := List.exists_cons_of_ne_nil hne
    exact ⟨c, t, rfl, .inl (hds c List.mem_cons_self)⟩
  | point hne hds hfs =>
    rename_i ds fs
    cases ds with
    | nil => exact ⟨'.', fs, rfl, .inr rfl⟩
    | cons c t => exact ⟨c, _, rfl, .inl (hds c List.mem_cons_self)⟩

theorem Denotes.head {cs : List Char} {q : ℚ} (h : Denotes cs q) :
    ∃ c t, cs = c :: t ∧ (c.isDigit = true ∨ c = '.') := by
  obtain h | ⟨h, -⟩ := h
  · exact h.head
  · obtain ⟨c, t, rfl, hc⟩ := h.head
    exact ⟨c, _, rfl, hc⟩

theorem readSigned_of_numeral {sign cs : List Char} {negative : Bool} {q : ℚ} {r : Nat}
    (hsign : Sign sign negative) (hcs : Denotes cs q) (hr : Double.Nearest q r) :
    Double.readSigned (sign ++ cs) = some (Double.ofRank negative r) := by
  obtain ⟨c, t, hhead, hc⟩ := hcs.head
  obtain ⟨d, hread, rfl⟩ := exists_read_of_denotes hcs
  have hdouble := d.toDouble_eq_of_nearest negative hr
  cases hsign with
  | minus => simp [Double.readSigned, hread, hdouble]
  | plus => simp [Double.readSigned, hread, hdouble]
  | none =>
    rw [List.nil_append, hhead, Double.readSigned, ← hhead, hread, Option.map_some, hdouble]
    all_goals
      rintro cs' heq
      obtain ⟨rfl, -⟩ := List.cons.inj heq
      revert hc
      decide

theorem spells_of_readSigned {cs : List Char} {x : Double} (h : Double.readSigned cs = some x) :
    Spells cs x := by
  unfold Double.readSigned at h
  split at h
  all_goals
    obtain ⟨d, hread, rfl⟩ := Option.map_eq_some_iff.mp h
    have hdenotes := denotes_of_read hread
  next cs =>
    obtain ⟨r, hr, heq⟩ := d.exists_nearest true
    exact heq ▸ .numeral .minus hdenotes hr
  next cs =>
    obtain ⟨r, hr, heq⟩ := d.exists_nearest false
    exact heq ▸ .numeral .plus hdenotes hr
  next =>
    obtain ⟨r, hr, heq⟩ := d.exists_nearest false
    exact heq ▸ .numeral .none hdenotes hr

theorem ofText_of_spells {s : String} {x : Double} (h : Spells (Double.trimmed s.toList) x) :
    Double.ofText s = x := by
  rw [Double.ofText]
  generalize Double.trimmed s.toList = cs at h
  cases h with
  | empty => rfl
  | infinity hsign => cases hsign <;> decide
  | numeral hsign hcs hr =>
    rename_i sign cs negative q r
    rw [readSigned_of_numeral hsign hcs hr]
    obtain ⟨c, t, rfl, hc⟩ := hcs.head
    -- No numeral starts as `Infinity` does, behind a sign or not.
    have hc' : c ≠ 'I' ∧ c ≠ '+' ∧ c ≠ '-' := by
      refine ⟨?_, ?_, ?_⟩
      all_goals
        rintro rfl
        revert hc
        decide
    have hinfinity : NumberFormat.standard.infinity.toList = 'I' :: "nfinity".toList := rfl
    cases hsign <;> simp [hinfinity, hc']

theorem spells_ofText {s : String} (h : (Double.ofText s).isNaN = false) :
    Spells (Double.trimmed s.toList) (Double.ofText s) := by
  rw [Double.ofText] at h ⊢
  generalize Double.trimmed s.toList = cs at h ⊢
  split
  next hempty =>
    rw [List.isEmpty_iff.mp hempty]
    exact .empty
  next hempty =>
    rw [if_neg hempty] at h
    split
    next hinf =>
      rw [Bool.or_eq_true, beq_iff_eq, beq_iff_eq] at hinf
      obtain rfl | rfl := hinf
      · exact .infinity .none
      · exact .infinity .plus
    next hinf =>
      rw [if_neg hinf] at h
      split
      next hminus =>
        rw [beq_iff_eq.mp hminus]
        exact .infinity .minus
      next hminus =>
        rw [if_neg hminus] at h
        cases hread : Double.readSigned cs with
        | none =>
          rw [hread] at h
          exact absurd h (by decide)
        | some x => exact spells_of_readSigned hread

/-- A printable character of ASCII other than the space. -/
def isVisible (c : Char) : Bool := 32 < c.toNat && c.toNat < 127

theorem isWhiteSpace_eq_false {c : Char} (h : isVisible c = true) :
    Text.isWhiteSpace c = false := by
  simp only [isVisible, Bool.and_eq_true, decide_eq_true_eq] at h
  simp only [Text.isWhiteSpace, Bool.or_eq_false_iff, Bool.and_eq_false_iff, beq_eq_false_iff_ne,
    decide_eq_false_iff_not]
  omega

/-- The characters of numerals. -/
def isNumeralChar (c : Char) : Bool := c.isDigit || ['.', 'e', 'E', '+', '-'].contains c

theorem isVisible_of_isNumeralChar {c : Char} (h : isNumeralChar c = true) :
    isVisible c = true := by
  rw [isNumeralChar, Bool.or_eq_true, List.contains_iff_mem] at h
  obtain h | h := h
  · have hdigit : 48 ≤ c.toNat ∧ c.toNat ≤ 57 := Char.isDigit_iff_toNat.mp h
    simp only [isVisible, Bool.and_eq_true, decide_eq_true_eq]
    omega
  · have hall : ['.', 'e', 'E', '+', '-'].all isVisible = true := by decide
    exact List.all_eq_true.mp hall c h

theorem AllDigits.isNumeralChar {ds : List Char} (h : AllDigits ds) :
    ∀ c ∈ ds, isNumeralChar c = true :=
  fun c hc => Bool.or_eq_true_iff.mpr (.inl (h c hc))

theorem Sign.isNumeralChar {sign : List Char} {negative : Bool} (h : Sign sign negative) :
    ∀ c ∈ sign, isNumeralChar c = true := by
  rw [← List.all_eq_true]
  cases h <;> decide

theorem Plain.isNumeralChar {cs : List Char} {q : ℚ} (h : Plain cs q) :
    ∀ c ∈ cs, isNumeralChar c = true := by
  cases h with
  | whole _ hds => exact hds.isNumeralChar
  | point _ hds hfs =>
    exact List.forall_mem_append.mpr
      ⟨hds.isNumeralChar, List.forall_mem_cons.mpr ⟨by decide, hfs.isNumeralChar⟩⟩

theorem Exponent.isNumeralChar {t : List Char} {k : ℤ} (h : Exponent t k) :
    ∀ c ∈ t, isNumeralChar c = true := by
  obtain ⟨hmark, hsign, -, hds⟩ := h
  refine List.forall_mem_cons.mpr
    ⟨?_, List.forall_mem_append.mpr ⟨hsign.isNumeralChar, hds.isNumeralChar⟩⟩
  obtain rfl | rfl := hmark <;> decide

theorem Denotes.isNumeralChar {cs : List Char} {q : ℚ} (h : Denotes cs q) :
    ∀ c ∈ cs, isNumeralChar c = true := by
  obtain h | ⟨h, ht⟩ := h
  · exact h.isNumeralChar
  · exact List.forall_mem_append.mpr ⟨h.isNumeralChar, ht.isNumeralChar⟩

/-- Nothing that spells a number has white space in it. -/
theorem Spells.isVisible {cs : List Char} {x : Double} (h : Spells cs x) :
    ∀ c ∈ cs, isVisible c = true := by
  cases h with
  | empty => exact List.forall_mem_nil _
  | numeral hsign hcs _ =>
    have hchars := List.forall_mem_append.mpr ⟨hsign.isNumeralChar, hcs.isNumeralChar⟩
    exact fun c hc => isVisible_of_isNumeralChar (hchars c hc)
  | infinity hsign =>
    have hsign' := fun c hc => isVisible_of_isNumeralChar (hsign.isNumeralChar c hc)
    have hname : "Infinity".toList.all Numeral.isVisible = true := by decide
    exact List.forall_mem_append.mpr ⟨hsign', List.all_eq_true.mp hname⟩

theorem isNaN_ofRank (negative : Bool) (r : Nat) : (Double.ofRank negative r).isNaN = false := by
  rw [Double.isNaN, Double.rank_ofRank, decide_eq_false_iff_not, Nat.not_lt]
  exact min_le_right r Double.infinityRank

/-- Nothing spells a NaN. -/
theorem Spells.isNaN_eq_false {cs : List Char} {x : Double} (h : Spells cs x) :
    x.isNaN = false := by
  cases h with
  | empty => exact isNaN_ofRank false 0
  | numeral _ _ _ => exact isNaN_ofRank _ _
  | infinity _ => exact isNaN_ofRank _ _

theorem trimmed_append {before body after : List Char}
    (hbefore : ∀ c ∈ before, Text.isWhiteSpace c = true) (hbody : ∀ c ∈ body, isVisible c = true)
    (hafter : ∀ c ∈ after, Text.isWhiteSpace c = true) :
    Double.trimmed (before ++ body ++ after) = body := by
  rw [Double.trimmed]
  -- With nothing between the ends, the whole text is dropped at its start.
  rcases eq_or_ne body [] with rfl | hne
  · have hblank : (before ++ [] ++ after).dropWhile Text.isWhiteSpace = [] := by
      rw [List.append_nil, List.dropWhile_eq_nil_iff]
      exact List.forall_mem_append.mpr ⟨hbefore, hafter⟩
    rw [hblank]
    rfl
  · have hstart : (before ++ body ++ after).dropWhile Text.isWhiteSpace = body ++ after := by
      rw [List.append_assoc]
      refine dropWhile_append hbefore fun c hc => isWhiteSpace_eq_false (hbody c ?_)
      rw [List.head?_append_of_ne_nil _ hne] at hc
      exact List.mem_of_mem_head? hc
    have hend : (body ++ after).reverse.dropWhile Text.isWhiteSpace = body.reverse := by
      rw [List.reverse_append]
      refine dropWhile_append (fun c hc => hafter c (List.mem_reverse.mp hc)) fun c hc =>
        isWhiteSpace_eq_false (hbody c (List.mem_reverse.mp (List.mem_of_mem_head? hc)))
    rw [hstart, hend, List.reverse_reverse]

theorem exists_trimmed (cs : List Char) :
    ∃ before after, cs = before ++ Double.trimmed cs ++ after ∧
      (∀ c ∈ before, Text.isWhiteSpace c = true) ∧ ∀ c ∈ after, Text.isWhiteSpace c = true := by
  refine ⟨cs.takeWhile Text.isWhiteSpace,
    ((cs.dropWhile Text.isWhiteSpace).reverse.takeWhile Text.isWhiteSpace).reverse, ?_, ?_, ?_⟩
  · rw [Double.trimmed, List.append_assoc, ← List.reverse_append, List.takeWhile_append_dropWhile,
      List.reverse_reverse, List.takeWhile_append_dropWhile]
  · exact fun c hc => List.mem_takeWhile_imp hc
  · exact fun c hc => List.mem_takeWhile_imp (List.mem_reverse.mp hc)

/-- **Reading a text.** A text is read as a number exactly when it spells that number, but for white
space at its ends. -/
theorem ofText_eq_iff {s : String} {x : Double} (hx : x.isNaN = false) :
    Double.ofText s = x ↔ Padded Text.isWhiteSpace (Spells · x) s.toList := by
  constructor
  · rintro rfl
    obtain ⟨before, after, heq, hbefore, hafter⟩ := exists_trimmed s.toList
    exact ⟨before, _, after, heq, hbefore, hafter, spells_ofText hx⟩
  · rintro ⟨before, body, after, heq, hbefore, hafter, hbody⟩
    have htrimmed : Double.trimmed s.toList = body := by
      rw [heq]
      exact trimmed_append hbefore hbody.isVisible hafter
    exact ofText_of_spells (htrimmed ▸ hbody)

end Numeral

namespace Double

open Numeral

/-! ### The text of a number -/

/-- The sign that a number is written with. -/
def signChars (x : Double) : List Char := if x.negative then ['-'] else []

theorem sign_signChars (x : Double) : Sign x.signChars x.negative := by
  rw [signChars]
  cases x.negative
  · exact .none
  · exact .minus

/-- A number is written as its sign and the text of its magnitude. -/
theorem write_eq {x : Double} (h : x.isNaN = false) :
    x.write = x.signChars ++
      (if x.isInfinite then NumberFormat.standard.infinity.toList
      else if x.isZero then ['0']
      else (shortest x.rank).write NumberFormat.standard) := by
  simp only [write, h, Bool.false_eq_true, if_false, signChars]
  split
  · rw [List.singleton_append]
  · rw [List.nil_append]

theorem plain_write {d : Decimal} {f : NumberFormat}
    (h : f.least ≤ d.leading ∧ d.leading ≤ f.greatest) : Plain (d.write f) d.value := by
  rw [Decimal.write, if_pos (by simpa using h)]
  exact d.plain_positional

theorem scientific_write {d : Decimal} {f : NumberFormat}
    (h : ¬(f.least ≤ d.leading ∧ d.leading ≤ f.greatest)) : Scientific (d.write f) d.value := by
  rw [Decimal.write, if_neg (by simpa using h)]
  exact d.scientific_exponential

theorem denotes_write (d : Decimal) (f : NumberFormat) : Denotes (d.write f) d.value := by
  by_cases h : f.least ≤ d.leading ∧ d.leading ≤ f.greatest
  · exact .inl (plain_write h)
  · exact .inr (scientific_write h)

theorem le_infinityRank {x : Double} (h : x.isNaN = false) : x.rank ≤ infinityRank := by
  rwa [isNaN, decide_eq_false_iff_not, Nat.not_lt] at h

/-- The shortest decimal of a finite number other than zero is nearest to that number. -/
theorem nearest_shortest {x : Double} (hpos : 0 < x.rank) (hle : x.rank ≤ infinityRank) :
    Nearest (shortest x.rank).value x.rank := by
  have hnearest := (shortest_roundsTo hpos).nearest
  rwa [min_eq_left hle] at hnearest

/-- The text of a number spells it. -/
theorem spells_write {x : Double} (h : x.isNaN = false) : Spells x.write x := by
  have hrank := ofRank_rank (le_infinityRank h)
  rw [write_eq h]
  split
  next hinfinite =>
    rw [isInfinite, beq_iff_eq] at hinfinite
    rw [hinfinite] at hrank
    exact hrank ▸ .infinity x.sign_signChars
  next =>
    split
    next hzero =>
      rw [isZero, beq_iff_eq] at hzero
      rw [hzero] at hrank
      have hplain : Plain ['0'] 0 := Nat.cast_zero (R := ℚ) ▸ .whole (by simp) (AllDigits.zeros 1)
      exact hrank ▸ .numeral x.sign_signChars (.inl hplain) RoundsTo.zero.nearest
    next hzero =>
      have hpos : 0 < x.rank := by
        rw [isZero, beq_iff_eq] at hzero
        exact Nat.pos_of_ne_zero hzero
      have hnearest := nearest_shortest hpos (le_infinityRank h)
      have hspells := Spells.numeral x.sign_signChars
        (denotes_write (shortest x.rank) NumberFormat.standard) hnearest
      rwa [hrank] at hspells

theorem write_of_isFinite {x : Double} (hfinite : x.isFinite = true) (hzero : x.isZero = false) :
    x.write = x.signChars ++ (shortest x.rank).write NumberFormat.standard := by
  rw [isFinite, decide_eq_true_eq] at hfinite
  have hnan : x.isNaN = false := by
    rw [isNaN, decide_eq_false_iff_not]
    exact hfinite.not_gt
  have hinfinite : x.isInfinite = false := by
    rw [isInfinite, beq_eq_false_iff_ne]
    exact hfinite.ne
  rw [write_eq hnan, hinfinite, hzero, if_neg Bool.false_ne_true, if_neg Bool.false_ne_true]

theorem millionthRank_nearest : Nearest (10 ^ (-6 : ℤ)) millionthRank := by
  have hnearest := millionthRank_roundsTo.nearest
  rwa [min_eq_left (by decide)] at hnearest

theorem sextillionRank_nearest : Nearest (10 ^ (21 : ℤ)) sextillionRank := by
  have hnearest := sextillionRank_roundsTo.nearest
  rwa [min_eq_left (by decide)] at hnearest

/-- Where plain numerals end, by the doubles nearest to the two bounds. -/
theorem leading_shortest_iff_of_nearest {r lo hi : Nat} (hr : 0 < r)
    (hlo : Nearest (10 ^ (-6 : ℤ)) lo) (hhi : Nearest (10 ^ (21 : ℤ)) hi) :
    -6 ≤ (shortest r).leading ∧ (shortest r).leading ≤ 20 ↔ lo ≤ r ∧ r < hi := by
  rw [leading_shortest_iff hr, hlo.unique millionthRank_nearest, hhi.unique sextillionRank_nearest]

/-- A number is read back from its text. -/
theorem ofText_format {x : Double} (h : x.isNaN = false) : ofText x.format = x := by
  have htext : x.format.toList = x.write := String.toList_ofList
  have hpadded : Padded Text.isWhiteSpace (Spells · x) x.write :=
    .of_self (spells_write h)
  exact (ofText_eq_iff h).mpr (htext ▸ hpadded)

/-- **Nothing is lost in the text of a number.** Whatever the 64 bits, the text is read as a number
of the same bits, unless the number is a NaN, whose text is read as a NaN. The text of a finite
number other than zero is its sign and a numeral, and what the numeral denotes is nearest to that
number among all doubles, a tie being decided by the even significand. The numeral is plain from the
double nearest to a millionth on up to below the double `10 ^ 21`, and has an exponent outside. -/
theorem number_text_loses_nothing (bits : UInt64) :
    ((ofBits bits).isNaN = false → (ofText (ofBits bits).format).toBits = bits) ∧
    ((ofBits bits).isNaN = true → (ofText (ofBits bits).format).isNaN = true) ∧
    ((ofBits bits).isFinite = true → (ofBits bits).isZero = false → ∃ t q,
      (ofBits bits).format.toList = (ofBits bits).signChars ++ t ∧ Nearest q (ofBits bits).rank ∧
      ∀ lo hi, Nearest (10 ^ (-6 : ℤ)) lo → Nearest (10 ^ (21 : ℤ)) hi →
        if lo ≤ (ofBits bits).rank ∧ (ofBits bits).rank < hi then Plain t q
        else Scientific t q) := by
  have hbits := toBits_ofBits bits
  generalize ofBits bits = x at hbits ⊢
  have htext : x.format.toList = x.write := String.toList_ofList
  refine ⟨fun h => ?_, fun h => ?_, fun hfinite hzero => ?_⟩
  · rw [ofText_format h, hbits]
  · have hformat : x.format = "NaN" := by
      rw [format, write, h]
      rfl
    rw [hformat]
    decide +kernel
  · have hpos : 0 < x.rank := by
      rw [isZero, beq_eq_false_iff_ne] at hzero
      exact Nat.pos_of_ne_zero hzero
    have hle : x.rank ≤ infinityRank := by
      rw [isFinite, decide_eq_true_eq] at hfinite
      exact hfinite.le
    refine ⟨_, (shortest x.rank).value, htext.trans (write_of_isFinite hfinite hzero),
      nearest_shortest hpos hle, fun lo hi hlo hhi => ?_⟩
    have hlayout := leading_shortest_iff_of_nearest hpos hlo hhi
    split
    next hin => exact plain_write (hlayout.mpr hin)
    next hout => exact scientific_write (mt hlayout.mp hout)

theorem text_of_least_double :
    (ofText (ofBits 1).format).toBits = 1 ∧
    (ofText (ofBits 0x7FF8000000000001).format).isNaN = true ∧
    ∃ q, Nearest q 1 ∧ Scientific "5e-324".toList q := by
  refine ⟨(number_text_loses_nothing 1).1 (by decide +kernel),
    (number_text_loses_nothing 0x7FF8000000000001).2.1 (by decide +kernel), ?_⟩
  obtain ⟨t, q, htext, hnearest, hlayout⟩ :=
    (number_text_loses_nothing 1).2.2 (by decide +kernel) (by decide +kernel)
  have hscientific := hlayout _ _ millionthRank_nearest sextillionRank_nearest
  have hformat : (ofBits 1).format.toList = "5e-324".toList := by decide +kernel
  have hsign : (ofBits 1).signChars = [] := by decide +kernel
  have hrank : (ofBits 1).rank = 1 := by decide +kernel
  rw [hformat, hsign, List.nil_append] at htext
  rw [hrank] at hnearest hscientific
  rw [if_neg (by decide), ← htext] at hscientific
  exact ⟨q, hnearest, hscientific⟩

end Double

end SchemaDoc
