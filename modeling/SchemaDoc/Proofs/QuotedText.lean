import SchemaDoc.Proofs.Printing
import SchemaDoc.Script.Token

/-!
# Reading printed texts as tokens

A text that is printed between quotes is read back as a token. Reading takes two steps, and both
follow the characters of the text: each is written with a backslash or stands for itself, and the
rest of the printed form is that of the characters behind it. So the extent of the quoted text is
found to end at the closing quote (`untilQuote_printed`, `untilSubstitution_printed`), and what
stands inside spells the text again (`stringValue_printed`, `chunkText_printed`).

Between backquotes the extent may end before, at a dollar sign with a brace behind it. The printer
escapes neither of the two, so such a text is taken for a template with a substitution
(`untilSubstitution_of_infix`).
-/

namespace SchemaDoc.Value

open Script Quoted

/-! ### What the quoted characters spell -/

/-- **What is written with a backslash is read as the character it stands for.** -/
theorem escape?_eq {quote : Char} (hquote : IsQuote quote) (template : Bool) {c e : Char}
    (h : Escape quote c e) (rest : List Char) :
    escape? template (e :: rest) = some ([c.toNat], rest) := by
  obtain rfl | rfl | rfl := hquote <;> cases h <;> rfl

theorem units_pushPlain (u : Nat) (s : Spelling) : (s.pushPlain u).units = u :: s.units := by
  unfold Spelling.pushPlain Spelling.units
  split
  · next h => simp [h]
  · next h => simp [h]

theorem units_pushEscape (us : List Nat) (s : Spelling) :
    (s.pushEscape us).units = us ++ s.units := by
  simp [Spelling.pushEscape, Spelling.units]

/-- The printed characters spell their own code points, in a string and in a template. -/
theorem spell_quotedBody {quote : Char} (hquote : IsQuote quote) (template : Bool)
    (cs : List Char) (fuel : Nat) (hfuel : (quotedBody quote cs).length ≤ fuel) (o : Nat) :
    ∃ s, spell template fuel o (quotedBody quote cs) = .ok s ∧ s.units = cs.map Char.toNat := by
  induction cs generalizing fuel o with
  | nil => exact ⟨.empty, by simp [spell], rfl⟩
  | cons c cs ih =>
    rw [quotedBody_cons] at hfuel ⊢
    obtain ⟨e, hescape, hchar⟩ | ⟨hplain, hchar⟩ := quotedChar_cases quote c
    · rw [hchar] at hfuel ⊢
      obtain _ | fuel := fuel
      · simp at hfuel
      obtain ⟨s, hs, hunits⟩ := ih fuel (by simp at hfuel; omega) (o + 1 + Text.byteLength [e])
      refine ⟨s.pushEscape [c.toNat], ?_, by rw [units_pushEscape, hunits]; rfl⟩
      simp [spell, escape?_eq hquote template hescape, hs, Except.map]
    · rw [hchar] at hfuel ⊢
      obtain _ | fuel := fuel
      · simp at hfuel
      obtain ⟨s, hs, hunits⟩ := ih fuel (by simp at hfuel; omega) (o + c.utf8Size)
      have hbackslash := ne_of_not_escape hplain .backslash
      have hreturn := ne_of_not_escape hplain .carriageReturn
      refine ⟨s.pushPlain c.toNat, ?_, by rw [units_pushPlain, hunits]; rfl⟩
      simp [spell, hbackslash, hreturn, hs, Except.map]

/-- The code point of a character opens no pair of units. -/
theorem isHighSurrogate_toNat (c : Char) : Text.isHighSurrogate c.toNat = false := by
  have hvalid : c.toNat.isValidChar := c.valid
  simp only [Text.isHighSurrogate, Bool.and_eq_false_iff, decide_eq_false_iff_not]
  obtain h | h := hvalid <;> omega

theorem ofUnits?_map_toNat (cs : List Char) : Text.ofUnits? (cs.map Char.toNat) = some cs := by
  induction cs with
  | nil => rfl
  | cons c cs ih =>
    have hvalid : c.toNat.isValidChar := c.valid
    cases cs with
    | nil => exact dif_pos hvalid
    | cons d cs =>
      have hpair : ¬(Text.isHighSurrogate c.toNat && Text.isLowSurrogate d.toNat) = true := by
        rw [isHighSurrogate_toNat, Bool.false_and]
        exact Bool.false_ne_true
      have hmap : Text.ofUnits? ((c :: d :: cs).map Char.toNat) =
          (Text.ofUnits? ((d :: cs).map Char.toNat)).map (c :: ·) :=
        (if_neg hpair).trans (dif_pos hvalid)
      rw [hmap, ih]
      rfl

/-- **What stands between the quotes of a printed string is read as the string.** -/
theorem stringValue_printed {quote : Char} (hquote : IsQuote quote) (cs rest : List Char) :
    stringValue ⟨quotedBody quote cs, true, rest⟩ = .ok (some (String.ofList cs)) := by
  obtain ⟨s, hs, hunits⟩ := spell_quotedBody hquote false cs _ (Nat.le_refl _) 0
  simp [stringValue, hs, Except.map, hunits, ofUnits?_map_toNat]

/-- **What stands between backquotes is read as the string.** -/
theorem chunkText_printed {quote : Char} (hquote : IsQuote quote) (cs : List Char) :
    chunkText (quotedBody quote cs) = .ok (String.ofList cs) := by
  obtain ⟨s, hs, hunits⟩ := spell_quotedBody hquote true cs _ (Nat.le_refl _) 0
  simp [chunkText, hs, Except.map, hunits, ofUnits?_map_toNat]

/-! ### How far the quoted characters reach -/

/-- **A printed string reaches up to its closing quote.** -/
theorem untilQuote_printed {quote : Char} (hquote : IsQuote quote) (cs rest : List Char) :
    untilQuote quote (quotedBody quote cs ++ quote :: rest) =
      ⟨quotedBody quote cs, true, rest⟩ := by
  induction cs with
  | nil => obtain rfl | rfl | rfl := hquote <;> rfl
  | cons c cs ih =>
    rw [quotedBody_cons, List.append_assoc]
    obtain ⟨e, hescape, hchar⟩ | ⟨hplain, hchar⟩ := quotedChar_cases quote c
    · have hreturn : e ≠ '\r' := by
        obtain rfl | rfl | rfl := hquote <;> cases hescape <;> decide
      rw [hchar]
      simp [untilQuote, hreturn, ih, Extent.push]
    · have hbackslash := ne_of_not_escape hplain .backslash
      have hclosing := ne_of_not_escape hplain .quote
      have hnewline := ne_of_not_escape hplain .newline
      have hreturn := ne_of_not_escape hplain .carriageReturn
      rw [hchar]
      simp [untilQuote, hbackslash, hclosing, hnewline, hreturn, ih, Extent.push]

theorem string_printed {quote : Char} (hquote : IsQuote quote) (cs rest : List Char) :
    Token.string quote (quotedBody quote cs ++ quote :: rest) =
      ⟨.string (some (String.ofList cs)), Text.byteLength (quotedBody quote cs) + 2, rest⟩ := by
  simp [Token.string, untilQuote_printed hquote, stringValue_printed hquote]

/-- A character of a template stands for itself if it neither ends the piece nor escapes. -/
theorem untilSubstitution_cons {c : Char} {cs : List Char} (hbackslash : c ≠ '\\')
    (hclosing : c ≠ backquote) (hopening : ¬['$', '\x7b'] <+: c :: cs) :
    untilSubstitution (c :: cs) =
      (untilSubstitution cs).map fun (raw, last, rest) => (c :: raw, last, rest) := by
  rw [untilSubstitution]
  · exact hclosing
  · rintro cs rfl rfl
    exact hopening (List.prefix_append ['$', '\x7b'] cs)
  · rintro d cs rfl
    exact absurd rfl hbackslash

/-- What is printed for a text starts with a brace only if the text does. -/
theorem exists_cons_of_printed {cs rest r : List Char}
    (h : quotedBody backquote cs ++ backquote :: rest = '\x7b' :: r) :
    ∃ cs', cs = '\x7b' :: cs' := by
  cases cs with
  | nil => exact absurd (List.cons.inj h).1 (by decide)
  | cons c cs =>
    rw [quotedBody_cons, List.append_assoc] at h
    obtain ⟨e, -, hchar⟩ | ⟨-, hchar⟩ := quotedChar_cases backquote c
    · rw [hchar] at h
      exact absurd (List.cons.inj h).1 (by decide)
    · rw [hchar] at h
      obtain rfl := (List.cons.inj h).1
      exact ⟨cs, rfl⟩

/-- **A printed text between backquotes reaches up to the closing one,** if no dollar sign in it has
a brace behind it. -/
theorem untilSubstitution_printed {cs : List Char} (hcs : ¬['$', '\x7b'] <:+: cs)
    (rest : List Char) :
    untilSubstitution (quotedBody backquote cs ++ backquote :: rest) =
      some (quotedBody backquote cs, true, rest) := by
  induction cs with
  | nil => rfl
  | cons c cs ih =>
    have ih := ih fun h => hcs (h.trans (List.suffix_cons c cs).isInfix)
    rw [quotedBody_cons, List.append_assoc]
    obtain ⟨e, hescape, hchar⟩ | ⟨hplain, hchar⟩ := quotedChar_cases backquote c
    · rw [hchar]
      simp [untilSubstitution, ih]
    · have hopening :
          ¬['$', '\x7b'] <+: c :: (quotedBody backquote cs ++ backquote :: rest) := by
        rintro ⟨r, hr⟩
        obtain ⟨rfl, htail⟩ := List.cons.inj hr
        obtain ⟨cs', rfl⟩ := exists_cons_of_printed htail.symm
        exact hcs (List.prefix_append ['$', '\x7b'] cs').isInfix
      rw [hchar, List.singleton_append, untilSubstitution_cons
        (ne_of_not_escape hplain .backslash) (ne_of_not_escape hplain .quote) hopening, ih]
      rfl

/-- **A dollar sign with a brace behind it opens a substitution,** so that the text between the
backquotes is a template of several pieces. -/
theorem untilSubstitution_of_infix {cs : List Char} (hcs : ['$', '\x7b'] <:+: cs)
    (rest : List Char) :
    ∃ raw rest',
      untilSubstitution (quotedBody backquote cs ++ rest) = some (raw, false, rest') := by
  induction cs with
  | nil => simp at hcs
  | cons c cs ih =>
    rw [quotedBody_cons, List.append_assoc]
    obtain ⟨r, hr⟩ | hcs := List.infix_cons_iff.1 hcs
    · -- the substitution opens right here
      obtain ⟨rfl, rfl⟩ := List.cons.inj hr
      exact ⟨[], _, rfl⟩
    · obtain ⟨raw, rest', h⟩ := ih hcs
      obtain ⟨e, hescape, hchar⟩ | ⟨hplain, hchar⟩ := quotedChar_cases backquote c
      · exact ⟨'\\' :: e :: raw, rest', by simp [hchar, untilSubstitution, h]⟩
      · by_cases hopening : ['$', '\x7b'] <+: c :: (quotedBody backquote cs ++ rest)
        · obtain ⟨r, hr⟩ := hopening
          refine ⟨[], r, ?_⟩
          rw [hchar, List.singleton_append, ← hr]
          rfl
        · refine ⟨c :: raw, rest', ?_⟩
          rw [hchar, List.singleton_append, untilSubstitution_cons
            (ne_of_not_escape hplain .backslash) (ne_of_not_escape hplain .quote) hopening, h]
          rfl

end SchemaDoc.Value
