import Mathlib.Data.Nat.Digits.Defs
import SchemaDoc.Proofs.Numerals
import SchemaDoc.Text.Unit

/-!
# Texts as the numbers of a script

A script has its own rule for the number that a text stands for (`ScriptReads`). It is that of
`Double.ofText` but for three things: the byte-order mark counts as white space, the next-line
character does not, and integers may be written in base two, eight or sixteen. Each of the three
makes one of the two rules find a number where the other finds none (`Misread`), and there is no
fourth (`exists_reads_iff`).
-/

namespace SchemaDoc.Numeral

/-! ### The rule of scripts -/

/-- The white space of scripts, ends of lines among it. -/
def isScriptBlank (c : Char) : Bool :=
  let n := c.toNat
  (9 ≤ n && n ≤ 13) || n == 32 || n == 0xA0 || n == 0x1680 || (0x2000 ≤ n && n ≤ 0x200A) ||
    n == 0x2028 || n == 0x2029 || n == 0x202F || n == 0x205F || n == 0x3000 || n == 0xFEFF

/-- The letters that stand for a base, behind a zero. -/
inductive BaseMark : Char → Nat → Prop
  | binary : BaseMark 'b' 2
  | capitalBinary : BaseMark 'B' 2
  | octal : BaseMark 'o' 8
  | capitalOctal : BaseMark 'O' 8
  | hexadecimal : BaseMark 'x' 16
  | capitalHexadecimal : BaseMark 'X' 16

/-- Integers in another base than ten. -/
inductive Based : List Char → Nat → Prop
  | mk {mark : Char} {base : Nat} {ds : List Char} {vs : List Nat} (hmark : BaseMark mark base)
    (hne : ds ≠ []) (hds : List.Forall₂ (fun c v => Text.hexValue? c = some v ∧ v < base) ds vs) :
    Based ('0' :: mark :: ds) (Nat.ofDigits base vs.reverse)

/-- Such an integer spells the double nearest to it. -/
def BasedSpells (cs : List Char) (x : Double) : Prop :=
  ∃ n r, Based cs n ∧ Double.Nearest n r ∧ x = Double.ofRank false r

/-- The number that a script reads a text as. A text without such a number is a NaN. -/
def ScriptReads (cs : List Char) (x : Double) : Prop :=
  Padded isScriptBlank (fun body => Spells body x ∨ BasedSpells body x) cs

/-- What a text without white space at its ends spells as an integer without bounds. -/
inductive IntegerSpells : List Char → ℤ → Prop
  | empty : IntegerSpells [] 0
  | decimal {sign ds : List Char} {negative : Bool} (hsign : Sign sign negative) (hne : ds ≠ [])
    (hds : AllDigits ds) :
    IntegerSpells (sign ++ ds) (if negative then -natural ds else natural ds)
  | based {cs : List Char} {n : Nat} (h : Based cs n) : IntegerSpells cs n

/-- The integer without bounds that a script reads a text as. -/
def ScriptReadsInteger (cs : List Char) (n : ℤ) : Prop :=
  Padded isScriptBlank (IntegerSpells · n) cs

/-! ### Where the rules part -/

/-- The number that a text is read as, unless it is a NaN. -/
def Reads (cs : List Char) (x : Double) : Prop := Padded Text.isWhiteSpace (Spells · x) cs

/-- The texts that only one of the two rules reads as a number. -/
inductive Misread (cs : List Char) (x : Double) : Prop
  | nextLine (h : Reads cs x) (hmem : '\u0085' ∈ cs)
  | byteOrderMark (h : ScriptReads cs x) (hmem : '\ufeff' ∈ cs)
  | based (h : Padded isScriptBlank (BasedSpells · x) cs)

theorem isScriptBlank_eq_false {c : Char} (h : isVisible c = true) : isScriptBlank c = false := by
  simp only [isVisible, Bool.and_eq_true, decide_eq_true_eq] at h
  simp only [isScriptBlank, Bool.or_eq_false_iff, Bool.and_eq_false_iff, beq_eq_false_iff_ne,
    decide_eq_false_iff_not]
  omega

/-- The two classes of white space differ by one character each. -/
theorem isScriptBlank_iff (c : Char) :
    isScriptBlank c = true ↔ (Text.isWhiteSpace c = true ∧ c ≠ '\u0085') ∨ c = '\ufeff' := by
  have hnext : c = '\u0085' ↔ c.toNat = 0x85 := Char.toNat_inj.symm
  have hmark : c = '\ufeff' ↔ c.toNat = 0xFEFF := Char.toNat_inj.symm
  rw [ne_eq, hnext, hmark]
  simp only [isScriptBlank, Text.isWhiteSpace, Bool.or_eq_true, Bool.and_eq_true, beq_iff_eq,
    decide_eq_true_eq]
  omega

theorem BaseMark.isVisible {mark : Char} {base : Nat} (h : BaseMark mark base) :
    isVisible mark = true ∧ isNumeralChar mark = false := by
  cases h <;> decide

theorem isVisible_of_hexValue? {c : Char} {v : Nat} (h : Text.hexValue? c = some v) :
    isVisible c = true := by
  have hle (a b : Char) : a ≤ b ↔ a.toNat ≤ b.toNat := Iff.rfl
  have hbounds : 48 ≤ c.toNat ∧ c.toNat ≤ 102 := by
    rw [Text.hexValue?] at h
    split_ifs at h
    all_goals
      rename_i hc
      rw [Bool.and_eq_true, decide_eq_true_eq, decide_eq_true_eq, hle, hle] at hc
      exact ⟨hc.1.trans' (by decide), hc.2.trans (by decide)⟩
  simp only [isVisible, Bool.and_eq_true, decide_eq_true_eq]
  omega

/-- No white space of either class stands in an integer of another base. -/
theorem BasedSpells.isVisible {cs : List Char} {x : Double} (h : BasedSpells cs x) :
    ∀ c ∈ cs, isVisible c = true := by
  obtain ⟨n, r, ⟨hmark, -, hds⟩, -, -⟩ := h
  refine List.forall_mem_cons.mpr ⟨by decide, List.forall_mem_cons.mpr ⟨hmark.isVisible.1, ?_⟩⟩
  induction hds with
  | nil => exact List.forall_mem_nil _
  | cons hc _ ih => exact List.forall_mem_cons.mpr ⟨isVisible_of_hexValue? hc.1, ih⟩

/-- The visible characters of a text whose ends are white space are what stands between the ends. -/
theorem filter_isVisible {blank : Char → Bool} (hblank : ∀ c, isVisible c = true → blank c = false)
    {before body after : List Char} (hbefore : ∀ c ∈ before, blank c = true)
    (hafter : ∀ c ∈ after, blank c = true) (hbody : ∀ c ∈ body, isVisible c = true) :
    (before ++ body ++ after).filter isVisible = body := by
  have hends {cs : List Char} (hcs : ∀ c ∈ cs, blank c = true) : cs.filter isVisible = [] := by
    rw [List.filter_eq_nil_iff]
    intro c hc hvisible
    exact Bool.false_ne_true ((hblank c hvisible).symm.trans (hcs c hc))
  rw [List.filter_append, List.filter_append, hends hbefore, hends hafter,
    List.filter_eq_self.mpr hbody, List.nil_append, List.append_nil]

/-- Behind a zero the letter of a base goes on no decimal numeral. -/
theorem BasedSpells.not_spells {cs : List Char} {x y : Double} (h : BasedSpells cs x) :
    ¬Spells cs y := by
  obtain ⟨n, r, hbased, -, -⟩ := h
  intro hspells
  cases hbased with
  | mk hmark hne hds =>
    rename_i mark base ds vs
    generalize hcs : '0' :: mark :: ds = cs at hspells
    cases hspells with
    | empty => cases hcs
    | infinity hsign => cases hsign <;> cases hcs
    | numeral hsign hdenotes hr =>
      cases hsign with
      | none =>
        have hmem : mark ∈ '0' :: mark :: ds := List.mem_cons_of_mem _ List.mem_cons_self
        rw [hcs, List.nil_append] at hmem
        have hchar := hdenotes.isNumeralChar mark hmem
        exact Bool.false_ne_true (hmark.isVisible.2.symm.trans hchar)
      | plus => cases hcs
      | minus => cases hcs

/-- A character that is not visible stands at an end of a text that has visible ones between. -/
theorem Padded.blank_of_mem {blank : Char → Bool} {P : List Char → Prop} {cs : List Char}
    (hP : ∀ body, P body → ∀ c ∈ body, isVisible c = true) (h : Padded blank P cs) {c : Char}
    (hc : c ∈ cs) (hvisible : isVisible c = false) : blank c = true := by
  obtain ⟨before, body, after, rfl, hbefore, hafter, hbody⟩ := h
  rw [List.mem_append, List.mem_append] at hc
  rcases hc with (hc | hc) | hc
  · exact hbefore c hc
  · exact absurd ((hP body hbody c hc).symm.trans hvisible) Bool.false_ne_true.symm
  · exact hafter c hc

/-- Ends of one class are ends of another class if each of their characters is in it. -/
theorem Padded.imp {blank blank' : Char → Bool} {P Q : List Char → Prop} {cs : List Char}
    (hblank : ∀ c ∈ cs, blank c = true → blank' c = true) (hP : ∀ body, P body → Q body)
    (h : Padded blank P cs) : Padded blank' Q cs := by
  obtain ⟨before, body, after, rfl, hbefore, hafter, hbody⟩ := h
  refine ⟨before, body, after, rfl, fun c hc => hblank c ?_ (hbefore c hc),
    fun c hc => hblank c ?_ (hafter c hc), hP body hbody⟩
  · simp [hc]
  · simp [hc]

/-- Whatever the white space, what stands between the ends is the same. -/
theorem Padded.body_eq {cs : List Char} {P Q : List Char → Prop}
    (hP : ∀ body, P body → ∀ c ∈ body, isVisible c = true)
    (hQ : ∀ body, Q body → ∀ c ∈ body, isVisible c = true)
    (h : Padded isScriptBlank P cs) (h' : Padded Text.isWhiteSpace Q cs) :
    ∃ body, P body ∧ Q body := by
  obtain ⟨before, body, after, rfl, hbefore, hafter, hbody⟩ := h
  obtain ⟨before', body', after', heq, hbefore', hafter', hbody'⟩ := h'
  have hfilter := filter_isVisible (fun _ => isScriptBlank_eq_false) hbefore hafter (hP body hbody)
  have hfilter' := filter_isVisible (fun _ => isWhiteSpace_eq_false) hbefore' hafter'
    (hQ body' hbody')
  rw [heq, hfilter'] at hfilter
  exact ⟨body, hbody, hfilter ▸ hbody'⟩

theorem scriptSpells_isVisible {x : Double} (body : List Char)
    (h : Spells body x ∨ BasedSpells body x) : ∀ c ∈ body, isVisible c = true :=
  h.elim Spells.isVisible BasedSpells.isVisible

theorem Reads.isNaN_eq_false {cs : List Char} {x : Double} (h : Reads cs x) :
    x.isNaN = false := by
  obtain ⟨before, body, after, rfl, hbefore, hafter, hbody⟩ := h
  exact hbody.isNaN_eq_false

theorem ScriptReads.isNaN_eq_false {cs : List Char} {x : Double} (h : ScriptReads cs x) :
    x.isNaN = false := by
  obtain ⟨before, body, after, rfl, hbefore, hafter, hbody | ⟨n, r, -, -, rfl⟩⟩ := h
  · exact hbody.isNaN_eq_false
  · exact isNaN_ofRank false r

theorem Reads.misread {cs : List Char} {x : Double} (h : Reads cs x) (h' : ¬ScriptReads cs x) :
    Misread cs x := by
  refine .nextLine h ?_
  by_contra hmem
  refine h' (Padded.imp (fun c hc hblank => ?_) (fun _ => .inl) h)
  exact (isScriptBlank_iff c).mpr (.inl ⟨hblank, fun heq => hmem (heq ▸ hc)⟩)

theorem ScriptReads.misread {cs : List Char} {x : Double} (h : ScriptReads cs x)
    (h' : ¬Reads cs x) : Misread cs x := by
  by_cases hmem : '\ufeff' ∈ cs
  · exact .byteOrderMark h hmem
  have hwhite : ∀ c ∈ cs, isScriptBlank c = true → Text.isWhiteSpace c = true := by
    intro c hc hblank
    obtain h | rfl := (isScriptBlank_iff c).mp hblank
    · exact h.1
    · exact absurd hc hmem
  obtain ⟨before, body, after, rfl, hbefore, hafter, hspells | hbased⟩ := h
  · have hpadded : Padded isScriptBlank (Spells · x) (before ++ body ++ after) :=
      ⟨before, body, after, rfl, hbefore, hafter, hspells⟩
    exact absurd (hpadded.imp hwhite fun _ => id) h'
  · exact .based ⟨before, body, after, rfl, hbefore, hafter, hbased⟩

/-- Only one of the two rules reads a misread text as a number. -/
theorem Misread.one_reads {cs : List Char} {x : Double} (h : Misread cs x) :
    (Reads cs x ∧ ∀ y, ¬ScriptReads cs y) ∨ (ScriptReads cs x ∧ ∀ y, ¬Reads cs y) := by
  cases h with
  | nextLine h hmem =>
    refine .inl ⟨h, fun y hy => ?_⟩
    have hblank := Padded.blank_of_mem scriptSpells_isVisible hy hmem (by decide)
    exact absurd hblank (by decide)
  | byteOrderMark h hmem =>
    refine .inr ⟨h, fun y hy => ?_⟩
    have hblank := Padded.blank_of_mem (fun _ => Spells.isVisible) hy hmem (by decide)
    exact absurd hblank (by decide)
  | based h =>
    -- Both rules would have to find the same text between the ends.
    refine .inr ⟨Padded.imp (fun _ _ => id) (fun _ => .inr) h, fun y hy => ?_⟩
    obtain ⟨body, hbased, hspells⟩ :=
      Padded.body_eq (fun _ => BasedSpells.isVisible) (fun _ => Spells.isVisible) h hy
    exact hbased.not_spells hspells

theorem Misread.isNaN_eq_false {cs : List Char} {x : Double} (h : Misread cs x) :
    x.isNaN = false := by
  obtain ⟨h, -⟩ | ⟨h, -⟩ := h.one_reads
  · exact h.isNaN_eq_false
  · exact h.isNaN_eq_false

/-- **Misread texts are the only difference.** Whether a text stands for a number with some property
is the same by both rules exactly if it is not misread as such a number. -/
theorem exists_reads_iff {cs : List Char} (S : Double → Prop) :
    ((∃ x, Reads cs x ∧ S x) ↔ ∃ x, ScriptReads cs x ∧ S x) ↔ ¬∃ x, Misread cs x ∧ S x := by
  constructor
  · rintro hiff ⟨x, hx, hS⟩
    obtain ⟨h, hnot⟩ | ⟨h, hnot⟩ := hx.one_reads
    · obtain ⟨y, hy, -⟩ := hiff.mp ⟨x, h, hS⟩
      exact hnot y hy
    · obtain ⟨y, hy, -⟩ := hiff.mpr ⟨x, h, hS⟩
      exact hnot y hy
  · intro hnot
    constructor
    · rintro ⟨x, h, hS⟩
      by_contra hnone
      exact hnot ⟨x, h.misread fun h' => hnone ⟨x, h', hS⟩, hS⟩
    · rintro ⟨x, h, hS⟩
      by_contra hnone
      exact hnot ⟨x, h.misread fun h' => hnone ⟨x, h', hS⟩, hS⟩

end SchemaDoc.Numeral
