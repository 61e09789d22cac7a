import SchemaDoc.Value.Printer

/-!
# Printed values are unambiguous

The printed form of a value that is made of null, truth values, strings, lists and mappings tells
which value it is. The quotes, brackets and separators of the printed form may all occur in strings
and keys as well, so it is not obvious where a part of the printed form ends. But each part says so
itself: whatever follows two printed values, if the two texts are the same, then so are the values,
and so is what follows (`Data.print_reads_uniquely`). For lists and mappings this follows from the
same about their parts. A string ends at the first quote of its kind that no backslash stands in
front of, and a key without quotes at the first colon.
-/

namespace SchemaDoc.Value

/-! ### Texts that say where they end -/

/-- Whatever follows it, the text of `a` is taken for that of nothing else that has a property. -/
def ReadsUniquely {α : Type} (P : α → Prop) (text : α → List Char) (a : α) : Prop :=
  ∀ b, P b → ∀ r r', text a ++ r = text b ++ r' → a = b ∧ r = r'

/-- A run of characters of a class ends in front of the first character that is not in it. -/
theorem eq_of_append_stop {p : Char → Bool} {stop : Char} (hstop : p stop = false)
    {cs cs' r r' : List Char} (hcs : cs.all p = true) (hcs' : cs'.all p = true)
    (h : cs ++ stop :: r = cs' ++ stop :: r') : cs = cs' ∧ r = r' := by
  induction cs generalizing cs' with
  | nil =>
    cases cs' with
    | nil => exact ⟨rfl, (List.cons.inj h).2⟩
    | cons c' cs' =>
      obtain ⟨rfl, -⟩ := List.cons.inj h
      simp [hstop] at hcs'
  | cons c cs ih =>
    cases cs' with
    | nil =>
      obtain ⟨rfl, -⟩ := List.cons.inj h
      simp [hstop] at hcs
    | cons c' cs' =>
      obtain ⟨rfl, htail⟩ := List.cons.inj h
      rw [List.all_cons, Bool.and_eq_true] at hcs hcs'
      obtain ⟨rfl, hrest⟩ := ih hcs.2 hcs'.2 htail
      exact ⟨rfl, hrest⟩

/-! ### Strings -/

/-- A character that texts are put between. -/
def IsQuote (quote : Char) : Prop := quote = '\'' ∨ quote = '"' ∨ quote = backquote

theorem isQuote_quoteFor (cs : List Char) : IsQuote (quoteFor cs) := by
  unfold quoteFor
  split
  · exact .inl rfl
  · split
    · exact .inr (.inl rfl)
    · split
      · exact .inr (.inr rfl)
      · exact .inl rfl

/-- The characters that are written with a backslash between quotes, each with the character behind
the backslash. -/
inductive Escape (quote : Char) : Char → Char → Prop
  | newline : Escape quote '\n' 'n'
  | tab : Escape quote '\t' 't'
  | carriageReturn : Escape quote '\r' 'r'
  | backslash : Escape quote '\\' '\\'
  | quote : Escape quote quote quote

/-- A character is written with a backslash, or stands for itself where none is needed. -/
theorem quotedChar_cases (quote c : Char) :
    (∃ e, Escape quote c e ∧ quotedChar quote c = ['\\', e]) ∨
      (∀ e, ¬Escape quote c e) ∧ quotedChar quote c = [c] := by
  unfold quotedChar
  split
  next h =>
    obtain rfl := eq_of_beq h
    exact .inl ⟨_, .newline, rfl⟩
  next hnewline =>
    split
    next h =>
      obtain rfl := eq_of_beq h
      exact .inl ⟨_, .tab, rfl⟩
    next htab =>
      split
      next h =>
        obtain rfl := eq_of_beq h
        exact .inl ⟨_, .carriageReturn, rfl⟩
      next hreturn =>
        split
        next h =>
          obtain rfl := eq_of_beq h
          exact .inl ⟨_, .backslash, rfl⟩
        next hbackslash =>
          split
          next h =>
            obtain rfl := eq_of_beq h
            exact .inl ⟨_, .quote, rfl⟩
          next hquote =>
            refine .inr ⟨fun e he => ?_, rfl⟩
            cases he with
            | newline => exact hnewline rfl
            | tab => exact htab rfl
            | carriageReturn => exact hreturn rfl
            | backslash => exact hbackslash rfl
            | quote => exact hquote (beq_self_eq_true _)

/-- A character that needs no backslash is none that does. -/
theorem ne_of_not_escape {quote c d e : Char} (hplain : ∀ e, ¬Escape quote c e)
    (h : Escape quote d e) : c ≠ d := by
  rintro rfl
  exact hplain e h

theorem Escape.unique {quote : Char} (hquote : IsQuote quote) {c c' e : Char}
    (h : Escape quote c e) (h' : Escape quote c' e) : c = c' := by
  obtain rfl | rfl | rfl := hquote <;> cases h <;> cases h' <;> rfl

/-- What stands for a character does not start with the quote. -/
theorem head_quotedChar {quote : Char} (hquote : IsQuote quote) (c : Char) (r r' : List Char) :
    quotedChar quote c ++ r ≠ quote :: r' := by
  intro h
  obtain ⟨e, -, hchar⟩ | ⟨hplain, hchar⟩ := quotedChar_cases quote c
  · rw [hchar] at h
    obtain rfl := (List.cons.inj h).1
    obtain heq | heq | heq := hquote <;> exact absurd heq (by decide)
  · rw [hchar] at h
    exact ne_of_not_escape hplain .quote (List.cons.inj h).1

theorem quotedChar_reads_uniquely {quote : Char} (hquote : IsQuote quote) (c : Char) :
    ReadsUniquely (fun _ => True) (quotedChar quote) c := by
  intro c' _ r r' h
  obtain ⟨e, hescape, hchar⟩ | ⟨hplain, hchar⟩ := quotedChar_cases quote c <;>
    obtain ⟨e', hescape', hchar'⟩ | ⟨hplain', hchar'⟩ := quotedChar_cases quote c' <;>
    rw [hchar, hchar'] at h
  · obtain ⟨rfl, hrest⟩ := List.cons.inj (List.cons.inj h).2
    exact ⟨hescape.unique hquote hescape', hrest⟩
  · exact absurd (List.cons.inj h).1.symm (ne_of_not_escape hplain' .backslash)
  · exact absurd (List.cons.inj h).1 (ne_of_not_escape hplain .backslash)
  · exact List.cons.inj h

/-- What is printed between the quotes of a text. -/
def quotedBody (quote : Char) (cs : List Char) : List Char := cs.flatMap (quotedChar quote)

@[simp] theorem quotedBody_nil (quote : Char) : quotedBody quote [] = [] := rfl

theorem quotedBody_cons (quote c : Char) (cs : List Char) :
    quotedBody quote (c :: cs) = quotedChar quote c ++ quotedBody quote cs := by
  simp [quotedBody]

/-- **A text ends at the first quote that stands for itself.** -/
theorem eq_of_append_quote {quote : Char} (hquote : IsQuote quote) {cs cs' r r' : List Char}
    (h : quotedBody quote cs ++ quote :: r = quotedBody quote cs' ++ quote :: r') :
    cs = cs' ∧ r = r' := by
  induction cs generalizing cs' with
  | nil =>
    cases cs' with
    | nil => exact ⟨rfl, (List.cons.inj h).2⟩
    | cons c' cs' =>
      rw [quotedBody_cons, List.append_assoc] at h
      exact absurd h.symm (head_quotedChar hquote c' _ _)
  | cons c cs ih =>
    rw [quotedBody_cons, List.append_assoc] at h
    cases cs' with
    | nil => exact absurd h (head_quotedChar hquote c _ _)
    | cons c' cs' =>
      rw [quotedBody_cons, List.append_assoc] at h
      obtain ⟨rfl, htail⟩ := quotedChar_reads_uniquely hquote c c' trivial _ _ h
      obtain ⟨rfl, hrest⟩ := ih htail
      exact ⟨rfl, hrest⟩

theorem quoted_toList (s : String) : (quoted s).toList =
    quoteFor s.toList :: quotedBody (quoteFor s.toList) s.toList ++ [quoteFor s.toList] := by
  rw [quoted, String.toList_ofList, quotedBody]

theorem quoted_reads_uniquely (s : String) :
    ReadsUniquely (fun _ => True) (fun s => (quoted s).toList) s := by
  intro t _ r r' h
  simp only [quoted_toList, List.cons_append, List.append_assoc, List.nil_append] at h
  obtain ⟨hquote, hbody⟩ := List.cons.inj h
  rw [← hquote] at hbody
  obtain ⟨htext, hrest⟩ := eq_of_append_quote (isQuote_quoteFor _) hbody
  exact ⟨String.toList_inj.mp htext, hrest⟩

/-! ### Keys -/

theorem isPlainPart_quote {quote : Char} (h : IsQuote quote) : Name.isPlainPart quote = false := by
  obtain rfl | rfl | rfl := h <;> decide

theorem isPlainPart_of_isPlainStart {c : Char} (h : Name.isPlainStart c = true) :
    Name.isPlainPart c = true := by
  have halphabetic : Text.isAlphabetic c = true → Text.isAlphanumeric c = true := by
    intro h
    rw [Text.isAlphanumeric]
    split
    next hascii =>
      rw [Text.isAlphabetic, if_pos hascii] at h
      rw [h, Bool.true_or]
    next => rw [h, Bool.true_or]
  simp only [Name.isPlainStart, Name.isPlainPart, Bool.or_eq_true] at h ⊢
  exact h.imp_left (Or.imp_left halphabetic)

/-- A plain key is not empty, and all its characters may continue one. -/
theorem isPlainKey_all {key : String} (h : Name.isPlainKey key = true) :
    key.toList ≠ [] ∧ key.toList.all Name.isPlainPart = true := by
  unfold Name.isPlainKey at h
  split at h
  · cases h
  next c cs hkey =>
    rw [Bool.and_eq_true] at h
    rw [hkey, List.all_cons, isPlainPart_of_isPlainStart h.1, h.2]
    exact ⟨nofun, rfl⟩

/-- A plain key is never taken for one between quotes. -/
theorem plain_append_ne_quoted {key key' : String} (h : Name.isPlainKey key = true)
    (r r' : List Char) : key.toList ++ r ≠ (quoted key').toList ++ r' := by
  intro heq
  obtain ⟨hne, hall⟩ := isPlainKey_all h
  obtain ⟨c, cs, hkey⟩ := List.exists_cons_of_ne_nil hne
  rw [hkey] at heq hall
  rw [quoted_toList] at heq
  obtain ⟨rfl, -⟩ := List.cons.inj heq
  rw [List.all_cons, isPlainPart_quote (isQuote_quoteFor _)] at hall
  cases hall

/-- **A key ends at a colon**: the first one, or the one behind the closing quote. -/
theorem eq_of_append_colon {key key' : String} {r r' : List Char}
    (h : (printKey key).toList ++ ':' :: r = (printKey key').toList ++ ':' :: r') :
    key = key' ∧ r = r' := by
  unfold printKey at h
  split at h <;> split at h
  next hplain hplain' =>
    obtain ⟨hkey, hrest⟩ :=
      eq_of_append_stop (by decide) (isPlainKey_all hplain).2 (isPlainKey_all hplain').2 h
    exact ⟨String.toList_inj.mp hkey, hrest⟩
  next hplain _ => exact absurd h (plain_append_ne_quoted hplain _ _)
  next _ hplain' => exact absurd h.symm (plain_append_ne_quoted hplain' _ _)
  next =>
    obtain ⟨hkey, hrest⟩ := quoted_reads_uniquely key key' trivial _ _ h
    exact ⟨hkey, (List.cons.inj hrest).2⟩

/-! ### Sequences -/

/-- **Items with commas between them**, in front of a blank: if each item says where it ends, then
so do all of them together. -/
theorem eq_of_append_blank {α : Type} {P : α → Prop} {text : α → String} {as bs : List α}
    (has : ∀ a ∈ as, ReadsUniquely P (fun a => (text a).toList) a) (hbs : ∀ b ∈ bs, P b)
    (hne : as ≠ []) (hne' : bs ≠ []) {r r' : List Char}
    (h : (", ".intercalate (as.map text)).toList ++ ' ' :: r =
      (", ".intercalate (bs.map text)).toList ++ ' ' :: r') : as = bs ∧ r = r' := by
  induction as generalizing bs with
  | nil => exact absurd rfl hne
  | cons a as ih =>
    obtain ⟨b, bs, rfl⟩ := List.exists_cons_of_ne_nil hne'
    obtain ⟨ha, htailA⟩ := List.forall_mem_cons.mp has
    obtain ⟨hb, htailB⟩ := List.forall_mem_cons.mp hbs
    have hcons (a : α) (a' : α) (as : List α) :
        (", ".intercalate ((a :: a' :: as).map text)).toList =
          (text a).toList ++ ',' :: ' ' :: (", ".intercalate ((a' :: as).map text)).toList := by
      rw [List.map_cons, List.map_cons, String.intercalate_cons_cons]
      simp
    have hone (a : α) : (", ".intercalate ([a].map text)).toList = (text a).toList :=
      congrArg String.toList String.intercalate_singleton
    cases as with
    | nil =>
      cases bs with
      | nil =>
        rw [hone, hone] at h
        obtain ⟨rfl, hrest⟩ := ha b hb _ _ h
        exact ⟨rfl, (List.cons.inj hrest).2⟩
      | cons b' bs =>
        rw [hone, hcons, List.append_assoc] at h
        exact absurd (List.cons.inj (ha b hb _ _ h).2).1 (by decide)
    | cons a' as =>
      cases bs with
      | nil =>
        rw [hone, hcons, List.append_assoc] at h
        exact absurd (List.cons.inj (ha b hb _ _ h).2).1 (by decide)
      | cons b' bs =>
        rw [hcons, hcons, List.append_assoc, List.append_assoc] at h
        obtain ⟨rfl, hrest⟩ := ha b hb _ _ h
        obtain ⟨htail, hend⟩ := ih htailA htailB nofun nofun
          (List.cons.inj (List.cons.inj hrest).2).2
        exact ⟨by rw [htail], hend⟩

/-- Texts between brackets, with commas between them. -/
def enclosed (left right : Char) (texts : List String) : List Char :=
  match texts with
  | [] => [left, right]
  | texts => left :: ' ' :: ((", ".intercalate texts).toList ++ [' ', right])

theorem enclosed_map {α : Type} {as : List α} (h : as ≠ []) (text : α → String)
    (left right : Char) : enclosed left right (as.map text) =
      left :: ' ' :: ((", ".intercalate (as.map text)).toList ++ [' ', right]) := by
  rw [enclosed]
  simpa using h

/-- **Items between brackets**: if each item says where it ends, then so do all of them together,
also if there are none. -/
theorem eq_of_enclosed {α : Type} {P : α → Prop} {text : α → String} {as bs : List α}
    (has : ∀ a ∈ as, ReadsUniquely P (fun a => (text a).toList) a) (hbs : ∀ b ∈ bs, P b)
    {left right : Char} (hright : right ≠ ' ') {r r' : List Char}
    (h : enclosed left right (as.map text) ++ r = enclosed left right (bs.map text) ++ r') :
    as = bs ∧ r = r' := by
  by_cases hne : as = [] <;> by_cases hne' : bs = []
  · subst hne hne'
    exact ⟨rfl, List.append_cancel_left h⟩
  · subst hne
    rw [enclosed_map hne'] at h
    exact absurd (List.cons.inj (List.cons.inj h).2).1 hright
  · subst hne'
    rw [enclosed_map hne] at h
    exact absurd (List.cons.inj (List.cons.inj h).2).1.symm hright
  · rw [enclosed_map hne, enclosed_map hne'] at h
    have hbody := (List.cons.inj (List.cons.inj h).2).2
    rw [List.append_eq, List.append_eq, List.append_assoc, List.append_assoc] at hbody
    obtain ⟨hitems, hrest⟩ := eq_of_append_blank has hbs hne hne' hbody
    exact ⟨hitems, (List.cons.inj hrest).2⟩

/-! ### Values -/

/-- A field of a mapping as it is printed. -/
def printField (field : String × Value) : String := printKey field.1 ++ ": " ++ print field.2

theorem printItems_eq (items : List Value) : printItems items = items.map print := by
  induction items with
  | nil => rfl
  | cons item items ih => rw [printItems, ih, List.map_cons]

theorem printFields_eq (fields : List (String × Value)) :
    printFields fields = fields.map printField := by
  induction fields with
  | nil => rfl
  | cons field fields ih => rw [printFields, ih, List.map_cons, printField]

theorem print_list (items : List Value) :
    (print (.list items)).toList = enclosed '[' ']' (items.map print) := by
  cases items with
  | nil => rfl
  | cons item items =>
    have hne : item :: items ≠ [] := nofun
    rw [print, printItems_eq, enclosed_map hne]
    · simp only [String.toList_append, List.append_assoc]
      rfl
    · exact hne

theorem print_map (fields : List (String × Value)) :
    (print (.map fields)).toList = enclosed '\x7b' '\x7d' (fields.map printField) := by
  cases fields with
  | nil => rfl
  | cons field fields =>
    have hne : field :: fields ≠ [] := nofun
    rw [print, printFields_eq, enclosed_map hne]
    · simp only [String.toList_append, List.append_assoc]
      rfl
    · exact hne

/-- A value that is made of null, truth values, strings, lists and mappings. -/
inductive Data : Value → Prop
  | null : Data .null
  | bool (b : Bool) : Data (.bool b)
  | str (s : String) : Data (.str s)
  | list {items : List Value} (h : ∀ item ∈ items, Data item) : Data (.list items)
  | map {fields : List (String × Value)} (h : ∀ field ∈ fields, Data field.2) : Data (.map fields)

/-- The first character of a printed value. -/
def opening : Value → Char
  | .null => 'n'
  | .bool b => if b then 't' else 'f'
  | .str s => quoteFor s.toList
  | .list _ => '['
  | _ => '\x7b'

theorem enclosed_eq_cons (left right : Char) (texts : List String) :
    ∃ cs, enclosed left right texts = left :: cs := by
  cases texts <;> exact ⟨_, rfl⟩

theorem Data.print_eq_cons {v : Value} (h : Data v) : ∃ cs, v.print.toList = opening v :: cs := by
  cases h with
  | null => exact ⟨_, rfl⟩
  | bool b => cases b <;> exact ⟨_, rfl⟩
  | str s => exact ⟨_, quoted_toList s⟩
  | list => exact print_list _ ▸ enclosed_eq_cons _ _ _
  | map => exact print_map _ ▸ enclosed_eq_cons _ _ _

/-- Values of one kind; truth values are of one kind only if they are the same. -/
inductive SameKind : Value → Value → Prop
  | null : SameKind .null .null
  | bool (b : Bool) : SameKind (.bool b) (.bool b)
  | str (s t : String) : SameKind (.str s) (.str t)
  | list (items items' : List Value) : SameKind (.list items) (.list items')
  | map (fields fields' : List (String × Value)) : SameKind (.map fields) (.map fields')

/-- The first character of a printed value tells its kind. -/
theorem Data.sameKind {v w : Value} (h : Data v) (h' : Data w) {r r' : List Char}
    (heq : v.print.toList ++ r = w.print.toList ++ r') : SameKind v w := by
  have hopening : opening v = opening w := by
    obtain ⟨cs, hcs⟩ := h.print_eq_cons
    obtain ⟨cs', hcs'⟩ := h'.print_eq_cons
    rw [hcs, hcs'] at heq
    exact (List.cons.inj heq).1
  have hquote (s : String) : IsQuote (quoteFor s.toList) := isQuote_quoteFor s.toList
  unfold IsQuote backquote at hquote
  cases h <;> cases h' <;> grind [opening, SameKind]

theorem printField_reads_uniquely {field : String × Value}
    (h : ReadsUniquely Data (fun v => v.print.toList) field.2) :
    ReadsUniquely (fun field : String × Value => Data field.2)
      (fun field => (printField field).toList) field := by
  intro field' hfield' r r' heq
  simp only [printField, String.toList_append, List.append_assoc] at heq
  obtain ⟨hkey, hrest⟩ := eq_of_append_colon heq
  obtain ⟨hvalue, hend⟩ := h field'.2 hfield' r r' (List.cons.inj hrest).2
  exact ⟨Prod.ext hkey hvalue, hend⟩

/-- **A printed value says where it ends.** -/
theorem Data.print_reads_uniquely {v : Value} (h : Data v) :
    ReadsUniquely Data (fun v => v.print.toList) v := by
  induction h with
  | null =>
    intro w hw r r' heq
    cases Data.null.sameKind hw heq
    exact ⟨rfl, List.append_cancel_left heq⟩
  | bool b =>
    intro w hw r r' heq
    cases (Data.bool b).sameKind hw heq
    exact ⟨rfl, List.append_cancel_left heq⟩
  | str s =>
    intro w hw r r' heq
    cases (Data.str s).sameKind hw heq with
    | str _ t => exact (quoted_reads_uniquely s t trivial r r' heq).imp_left (congrArg Value.str)
  | @list items h ih =>
    intro w hw r r' heq
    cases (Data.list h).sameKind hw heq with
    | list _ items' =>
      cases hw with
      | list h' =>
        simp only [print_list] at heq
        exact (eq_of_enclosed ih h' (by decide) heq).imp_left (congrArg Value.list)
  | @map fields h ih =>
    intro w hw r r' heq
    cases (Data.map h).sameKind hw heq with
    | map _ fields' =>
      cases hw with
      | map h' =>
        have hfields := fun field hfield => printField_reads_uniquely (ih field hfield)
        simp only [print_map] at heq
        exact (eq_of_enclosed hfields h' (by decide) heq).imp_left (congrArg Value.map)

/-- **Printed values are unambiguous.** Two values that are made of null, truth values, strings,
lists and mappings are the same if they are printed alike, and also if the one printed form is only
the beginning of the other. -/
theorem printed_values_unambiguous {v w : Value} (hv : Data v) (hw : Data w) :
    (v.print = w.print → v = w) ∧ (v.print.toList <+: w.print.toList → v = w) := by
  refine ⟨fun h => ?_, fun ⟨rest, h⟩ => ?_⟩
  · have htext : v.print.toList ++ [] = w.print.toList ++ [] := by rw [h]
    exact (hv.print_reads_uniquely w hw [] [] htext).1
  · have htext : v.print.toList ++ rest = w.print.toList ++ [] := by rw [h, List.append_nil]
    exact (hv.print_reads_uniquely w hw rest [] htext).1

/-- A mapping in whose strings and keys there is all that may also stand between them. -/
def delimitersInside : Value :=
  .map [("it's: \"", .str "], '"), ("note", .list [.null, .map [], .list [.bool true]])]

/-- The same value, from a JSON text. -/
def delimitersFromJson : Value :=
  .ofJson (.object [("it's: \"", .string "], '"),
    ("note", .array [.null, .object [], .array [.bool true]])])

theorem data_delimitersInside : Data delimitersInside := by
  refine .map ?_
  simp only [List.mem_cons, List.not_mem_nil, or_false, forall_eq_or_imp, forall_eq]
  refine ⟨.str _, .list ?_⟩
  simp only [List.mem_cons, List.not_mem_nil, or_false, forall_eq_or_imp, forall_eq]
  exact ⟨.null, .map nofun, .list (by simpa using Data.bool true)⟩

theorem delimitersInside_unambiguous :
    Data delimitersInside ∧ delimitersInside.print = delimitersFromJson.print ∧
      delimitersInside = delimitersFromJson :=
  have hdata : Data delimitersFromJson := data_delimitersInside
  have hprint : delimitersInside.print = delimitersFromJson.print := rfl
  ⟨data_delimitersInside, hprint,
    (printed_values_unambiguous data_delimitersInside hdata).1 hprint⟩

end SchemaDoc.Value
