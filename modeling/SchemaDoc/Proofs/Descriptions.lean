import Mathlib.Data.List.Forall2
import Mathlib.Data.List.TakeWhile
import SchemaDoc.Proofs.Pieces

/-!
# Descriptions are continuation lines

A description stands below the bullet of its field, so a line of it that is empty or not indented
would end the list. The text of the comments is joined, cut into lines, cleaned, joined again, cut
again and indented; this file says what comes out, in terms of the comments one by one.

* `Cleaned` says what is left of a line, by how the line is put together, and `cleaned_iff` that
  cleaning leaves this and nothing else.
* `Says` says what the lines of a text say, for lines that end with a line feed or with a carriage
  return and a line feed. The carriage return is white space at the end of a line, so it does not
  matter whether it is taken for a part of the line (`HasLines.map_cleanLine`). On its own, it ends
  no line.
* A cleaned line has no line feed in it, so that cutting the joined lines again gives the same lines
  (`indent_intercalate`).
-/

namespace SchemaDoc.Description

/-! ### White space at the ends -/

/-- Nothing but white space. -/
def Blank (cs : List Char) : Prop := ∀ c ∈ cs, Text.isWhiteSpace c = true

/-- A text that neither starts nor ends with white space. -/
structure Trimmed (cs : List Char) : Prop where
  first : ∀ c ∈ cs.head?, Text.isWhiteSpace c = false
  last : ∀ c ∈ cs.getLast?, Text.isWhiteSpace c = false

theorem trimStart_append {lead : List Char} (h : Blank lead) (cs : List Char) :
    trimStart (lead ++ cs) = trimStart cs :=
  List.dropWhile_append_of_pos h

theorem trimEnd_append (cs : List Char) {trail : List Char} (h : Blank trail) :
    trimEnd (cs ++ trail) = trimEnd cs := by
  rw [trimEnd, List.reverse_append,
    List.dropWhile_append_of_pos fun c hc => h c (List.mem_reverse.mp hc), trimEnd]

theorem trimStart_eq_self {cs : List Char} (h : ∀ c ∈ cs.head?, Text.isWhiteSpace c = false) :
    trimStart cs = cs := by
  cases cs with
  | nil => rfl
  | cons c cs => exact List.dropWhile_cons_of_neg (Bool.eq_false_iff.mp (h c rfl))

theorem trimEnd_eq_self {cs : List Char} (h : ∀ c ∈ cs.getLast?, Text.isWhiteSpace c = false) :
    trimEnd cs = cs := by
  rw [← List.head?_reverse] at h
  have hself := trimStart_eq_self h
  rw [trimStart] at hself
  rw [trimEnd, hself, List.reverse_reverse]

/-- What `trimStart` takes away, and that it takes away enough. -/
theorem exists_trimStart (cs : List Char) : ∃ lead, cs = lead ++ trimStart cs ∧ Blank lead ∧
    ∀ c ∈ (trimStart cs).head?, Text.isWhiteSpace c = false := by
  refine ⟨cs.takeWhile Text.isWhiteSpace, List.takeWhile_append_dropWhile.symm,
    fun c hc => List.mem_takeWhile_imp hc, fun c hc => ?_⟩
  have hhead := List.head?_dropWhile_not Text.isWhiteSpace cs
  rw [← trimStart, Option.mem_def.mp hc] at hhead
  exact hhead

theorem exists_trimEnd (cs : List Char) : ∃ trail, cs = trimEnd cs ++ trail ∧ Blank trail ∧
    ∀ c ∈ (trimEnd cs).getLast?, Text.isWhiteSpace c = false := by
  obtain ⟨lead, hlead, hblank, hfirst⟩ := exists_trimStart cs.reverse
  refine ⟨lead.reverse, ?_, fun c hc => hblank c (List.mem_reverse.mp hc), ?_⟩
  · rw [trimEnd, ← List.reverse_append, ← trimStart, ← hlead, List.reverse_reverse]
  · rw [trimEnd, List.getLast?_reverse]
    exact hfirst

/-- A text that starts with no white space is trimmed when its end is. -/
theorem trimmed_trimEnd {cs : List Char} (h : ∀ c ∈ cs.head?, Text.isWhiteSpace c = false) :
    Trimmed (trimEnd cs) := by
  obtain ⟨trail, htext, -, hlast⟩ := exists_trimEnd cs
  refine ⟨fun c hc => h c ?_, hlast⟩
  rw [htext, List.head?_append, Option.mem_def.mp hc]
  rfl

/-! ### Cleaned lines -/

/-- **What is left of a line**: the line is white space, a margin, the text and white space. A
margin is a star with the white space behind it. There is none only if the text does not start with
a star, so a star that comes first is always in the margin, and a second one never is. -/
def Cleaned (line text : List Char) : Prop :=
  Trimmed text ∧ ∃ lead margin trail, line = lead ++ margin ++ text ++ trail ∧
    Blank lead ∧ Blank trail ∧
      ((margin = [] ∧ text.head? ≠ some '*') ∨ ∃ gap, margin = '*' :: gap ∧ Blank gap)

theorem cleanLine_of_star {line rest : List Char} (h : trimStart line = '*' :: rest) :
    cleanLine line = trimEnd (trimStart rest) := by
  rw [cleanLine, h]
  rfl

theorem cleanLine_of_no_star {line : List Char} (h : (trimStart line).head? ≠ some '*') :
    cleanLine line = trimEnd (trimStart line) := by
  rw [cleanLine]
  split
  next rest hstar =>
    rw [hstar] at h
    exact absurd rfl h
  next => rfl

theorem cleaned_cleanLine (line : List Char) : Cleaned line (cleanLine line) := by
  obtain ⟨lead, hline, hlead, hfirst⟩ := exists_trimStart line
  by_cases hstar : (trimStart line).head? = some '*'
  · obtain ⟨rest, hrest⟩ := List.head?_eq_some_iff.mp hstar
    obtain ⟨gap, hgap, hblank, hbody⟩ := exists_trimStart rest
    obtain ⟨trail, htrail, htrail', -⟩ := exists_trimEnd (trimStart rest)
    rw [cleanLine_of_star hrest]
    refine ⟨trimmed_trimEnd hbody, lead, '*' :: gap, trail, ?_, hlead, htrail',
      .inr ⟨gap, rfl, hblank⟩⟩
    calc
      line = lead ++ '*' :: rest := by rw [← hrest, ← hline]
      _ = lead ++ '*' :: (gap ++ (trimEnd (trimStart rest) ++ trail)) := by rw [← htrail, ← hgap]
      _ = _ := by simp
  · obtain ⟨trail, htrail, htrail', -⟩ := exists_trimEnd (trimStart line)
    rw [cleanLine_of_no_star hstar]
    refine ⟨trimmed_trimEnd hfirst, lead, [], trail, ?_, hlead, htrail',
      .inl ⟨rfl, fun h => hstar ?_⟩⟩
    · rw [List.append_nil, List.append_assoc, ← htrail, ← hline]
    · rw [htrail, List.head?_append, h]
      rfl

/-- Nothing of a trimmed text is lost at its start. -/
theorem exists_trimStart_append {text trail : List Char} (htext : Trimmed text)
    (htrail : Blank trail) : ∃ rest, trimStart (text ++ trail) = text ++ rest ∧ Blank rest := by
  cases text with
  | nil => exact ⟨[], List.dropWhile_eq_nil_iff.mpr htrail, nofun⟩
  | cons c text => exact ⟨trail, trimStart_eq_self htext.first, htrail⟩

/-- **Cleaning leaves what is left of a line**, and nothing else is left of it. -/
theorem cleaned_iff (line text : List Char) : Cleaned line text ↔ text = cleanLine line := by
  refine ⟨?_, fun h => h ▸ cleaned_cleanLine line⟩
  rintro ⟨htext, lead, margin, trail, rfl, hlead, htrail, hmargin⟩
  obtain ⟨rest, hrest, hblank⟩ := exists_trimStart_append htext htrail
  have hclean : trimEnd (text ++ rest) = text :=
    (trimEnd_append text hblank).trans (trimEnd_eq_self htext.last)
  rcases hmargin with ⟨rfl, hstar⟩ | ⟨gap, rfl, hgap⟩
  · have hbody : trimStart (lead ++ [] ++ text ++ trail) = text ++ rest := by
      rw [List.append_nil, List.append_assoc, trimStart_append hlead, hrest]
    rw [cleanLine_of_no_star, hbody, hclean]
    -- The first character is one of the text, which is no star, or else white space.
    rw [hbody, List.head?_append]
    intro h
    rcases Option.or_eq_some_iff.mp h with h | ⟨-, h⟩
    · exact hstar h
    · exact absurd (hblank '*' (List.mem_of_head? h)) (by decide)
  · have hbody : trimStart (lead ++ '*' :: gap ++ text ++ trail) =
        '*' :: (gap ++ (text ++ trail)) := by
      have hassoc : lead ++ '*' :: gap ++ text ++ trail =
          lead ++ ('*' :: (gap ++ (text ++ trail))) := by simp
      rw [hassoc, trimStart_append hlead]
      rfl
    rw [cleanLine_of_star hbody, trimStart_append hgap, hrest, hclean]

/-! ### Lines -/

/-- **The lines of a text**: all but the last end with a line feed, in front of which there may be a
carriage return. -/
inductive HasLines : List Char → List (List Char) → Prop
  | last {line : List Char} (h : '\n' ∉ line) : HasLines line [line]
  | feed {line rest : List Char} {ls : List (List Char)} (h : '\n' ∉ line)
    (more : HasLines rest ls) : HasLines (line ++ '\n' :: rest) (line :: ls)
  | returnFeed {line rest : List Char} {ls : List (List Char)} (h : '\n' ∉ line)
    (more : HasLines rest ls) : HasLines (line ++ '\r' :: '\n' :: rest) (line :: ls)

theorem hasLines_intercalate {ls : List (List Char)} (hne : ls ≠ [])
    (h : ∀ line ∈ ls, '\n' ∉ line) : HasLines (['\n'].intercalate ls) ls := by
  induction ls with
  | nil => exact absurd rfl hne
  | cons line ls ih =>
    obtain ⟨hline, hls⟩ := List.forall_mem_cons.mp h
    cases ls with
    | nil =>
      rw [List.intercalate_singleton]
      exact .last hline
    | cons next ls =>
      rw [List.intercalate_cons_cons, List.append_assoc]
      exact .feed hline (ih (List.cons_ne_nil _ _) hls)

theorem hasLines_lines (cs : List Char) : HasLines cs (lines cs) := by
  have h := hasLines_intercalate (List.splitOn_ne_nil '\n' cs) fun _ => notMem_of_mem_splitOn
  rwa [List.intercalate_splitOn, ← lines_eq_splitOn] at h

theorem cleanLine_append_return (line : List Char) :
    cleanLine (line ++ ['\r']) = cleanLine line := by
  obtain ⟨htext, lead, margin, trail, hline, hlead, htrail, hmargin⟩ := cleaned_cleanLine line
  refine ((cleaned_iff _ _).mp ⟨htext, lead, margin, trail ++ ['\r'], ?_, hlead, ?_, hmargin⟩).symm
  · rw [← List.append_assoc, ← hline]
  · exact List.forall_mem_append.mpr ⟨htrail, List.forall_mem_singleton.mpr (by decide)⟩

/-- However the lines of a text are read, they are cleaned to the same. -/
theorem HasLines.map_cleanLine {cs : List Char} {ls : List (List Char)} (h : HasLines cs ls) :
    (lines cs).map cleanLine = ls.map cleanLine := by
  induction h with
  | last h => rw [lines_eq_splitOn, List.splitOn_eq_singleton h]
  | feed h _ ih =>
    rw [lines_eq_splitOn, List.splitOn_append_cons_self_of_not_mem h, ← lines_eq_splitOn,
      List.map_cons, ih, List.map_cons]
  | @returnFeed line rest ls h _ ih =>
    have hsplit : line ++ '\r' :: '\n' :: rest = (line ++ ['\r']) ++ '\n' :: rest := by simp
    have hfeed : '\n' ∉ line ++ ['\r'] := by simpa using h
    rw [hsplit, lines_eq_splitOn, List.splitOn_append_cons_self_of_not_mem hfeed,
      ← lines_eq_splitOn, List.map_cons, ih, cleanLine_append_return, List.map_cons]

/-- **What a text says**: what is left of its lines, without those of which nothing is left. -/
def Says (text : String) (texts : List String) : Prop :=
  ∃ ls cleaned, HasLines text.toList ls ∧ List.Forall₂ Cleaned ls cleaned ∧
    texts.map String.toList = cleaned.filter (!·.isEmpty)

theorem forall₂_iff_eq_map {α β : Type} {R : α → β → Prop} {f : α → β} (h : ∀ a b, R a b ↔ b = f a)
    {as : List α} {bs : List β} : List.Forall₂ R as bs ↔ bs = as.map f := by
  have hR : R = fun a b => f a = b := funext₂ fun a b => propext ((h a b).trans eq_comm)
  rw [hR, ← List.forall₂_map_left_iff, List.forall₂_eq_eq_eq, eq_comm]

/-- **A text says its cleaned lines**, and nothing else. -/
theorem says_iff (text : String) (texts : List String) :
    Says text texts ↔ texts = cleanLines text := by
  have hclean : (cleanLines text).map String.toList =
      ((lines text.toList).map cleanLine).filter (!·.isEmpty) := by
    rw [cleanLines, List.map_map]
    simp
  constructor
  · rintro ⟨ls, cleaned, hls, hcleaned, htexts⟩
    rw [(forall₂_iff_eq_map cleaned_iff).mp hcleaned, ← hls.map_cleanLine, ← hclean] at htexts
    exact List.map_injective_iff.mpr (fun _ _ => String.toList_injective) htexts
  · rintro rfl
    exact ⟨_, _, hasLines_lines _, (forall₂_iff_eq_map cleaned_iff).mpr rfl, hclean⟩

/-! ### Joining and cutting -/

theorem lines_append (a b : String) :
    lines (a ++ "\n" ++ b).toList = lines a.toList ++ lines b.toList := by
  have htext : (a ++ "\n" ++ b).toList = a.toList ++ '\n' :: b.toList := by simp
  rw [htext, lines_eq_splitOn, List.splitOn_append_cons_self, lines_eq_splitOn, lines_eq_splitOn]

theorem cleanLines_append (a b : String) :
    cleanLines (a ++ "\n" ++ b) = cleanLines a ++ cleanLines b := by
  rw [cleanLines, lines_append, List.map_append, List.filter_append, List.map_append]
  rfl

theorem cleanLines_empty : cleanLines "" = [] := by decide

/-- **Comments are cleaned one by one.** -/
theorem cleanLines_intercalate (texts : List String) :
    cleanLines ("\n".intercalate texts) = texts.flatMap cleanLines := by
  induction texts with
  | nil => exact cleanLines_empty
  | cons text texts ih =>
    cases texts with
    | nil => simp
    | cons next texts =>
      rw [String.intercalate_cons_cons, cleanLines_append, ih]
      rfl

theorem mem_cleanLines {text said : String} (h : said ∈ cleanLines text) :
    said ≠ "" ∧ Trimmed said.toList ∧ '\n' ∉ said.toList := by
  obtain ⟨cs, hcs, rfl⟩ := List.mem_map.mp h
  obtain ⟨hcs, hne⟩ := List.mem_filter.mp hcs
  obtain ⟨line, hline, rfl⟩ := List.mem_map.mp hcs
  obtain ⟨htrimmed, lead, margin, trail, hparts, -⟩ := cleaned_cleanLine line
  rw [String.toList_ofList]
  refine ⟨fun hempty => ?_, htrimmed, fun hfeed => ?_⟩
  · rw [String.ofList_eq_empty_iff.mp hempty] at hne
    cases hne
  · rw [lines_eq_splitOn] at hline
    refine notMem_of_mem_splitOn hline ?_
    rw [hparts]
    exact List.mem_append_left _ (List.mem_append_right _ hfeed)

theorem indent_append {a b : String} (ha : a ≠ "") (hb : b ≠ "") (depth : Nat) :
    indent (a ++ "\n" ++ b) depth = indent a depth ++ "\n" ++ indent b depth := by
  have hlines (text : String) :
      (lines text.toList).map (fun line => indentation depth ++ String.ofList line) ≠ [] := by
    rw [lines_eq_splitOn]
    exact fun h => List.splitOn_ne_nil _ _ (List.map_eq_nil_iff.mp h)
  rw [indent, if_neg (by simp), lines_append, List.map_append,
    String.intercalate_append_of_ne_nil (hlines a) (hlines b), indent, if_neg (by simpa using ha),
    indent, if_neg (by simpa using hb)]

theorem indent_of_notMem {text : String} (hne : text ≠ "") (h : '\n' ∉ text.toList) (depth : Nat) :
    indent text depth = indentation depth ++ text := by
  rw [indent, if_neg (by simpa using hne), lines_eq_splitOn, List.splitOn_eq_singleton h,
    List.map_singleton, String.intercalate_singleton, String.ofList_toList]

theorem intercalate_ne_empty {separator text : String} (h : text ≠ "") (texts : List String) :
    separator.intercalate (text :: texts) ≠ "" := by
  cases texts with
  | nil => rwa [String.intercalate_singleton]
  | cons next texts =>
    rw [String.intercalate_cons_cons]
    simp [h]

/-- **Cutting again**: texts that are joined by line breaks are indented one by one. -/
theorem indent_intercalate {texts : List String}
    (h : ∀ text ∈ texts, text ≠ "" ∧ '\n' ∉ text.toList) (depth : Nat) :
    indent (lineBreak.intercalate texts) depth =
      lineBreak.intercalate (texts.map (indentation depth ++ ·)) := by
  induction texts with
  | nil => rfl
  | cons text texts ih =>
    obtain ⟨⟨hne, hfeed⟩, hrest⟩ := List.forall_mem_cons.mp h
    cases texts with
    | nil =>
      rw [List.map_singleton, String.intercalate_singleton, String.intercalate_singleton]
      exact indent_of_notMem hne hfeed depth
    | cons next texts =>
      have hnext : lineBreak.intercalate (next :: texts) ≠ "" :=
        intercalate_ne_empty (hrest next List.mem_cons_self).1 texts
      have hbreak : lineBreak = "  " ++ "\n" := rfl
      calc
        indent (lineBreak.intercalate (text :: next :: texts)) depth
          = indent (text ++ "  " ++ "\n" ++ lineBreak.intercalate (next :: texts)) depth := by
            rw [String.intercalate_cons_cons, hbreak, ← String.append_assoc]
        _ = indent (text ++ "  ") depth ++ "\n" ++
              indent (lineBreak.intercalate (next :: texts)) depth :=
            indent_append (by simp [hne]) hnext depth
        _ = indentation depth ++ (text ++ "  ") ++ "\n" ++
              lineBreak.intercalate ((next :: texts).map (indentation depth ++ ·)) := by
            rw [indent_of_notMem (by simp [hne]) (by simpa using hfeed), ih hrest]
        _ = indentation depth ++ text ++ lineBreak ++
              lineBreak.intercalate ((next :: texts).map (indentation depth ++ ·)) := by
            rw [hbreak]
            simp only [String.append_assoc]
        _ = lineBreak.intercalate ((text :: next :: texts).map (indentation depth ++ ·)) := by
            rw [List.map_cons, List.map_cons, List.map_cons, String.intercalate_cons_cons]

/-! ### Descriptions -/

/-- What comments say, one by one. -/
def CommentsSay (comments : List Comment) (said : List (List String)) : Prop :=
  List.Forall₂ (fun comment texts => Says comment.text texts) comments said

theorem commentsSay_iff (comments : List Comment) (said : List (List String)) :
    CommentsSay comments said ↔ said = comments.map fun comment => cleanLines comment.text :=
  forall₂_iff_eq_map fun (comment : Comment) => says_iff comment.text

theorem mem_flatMap_cleanLines {comments : List Comment} {said : String}
    (h : said ∈ comments.flatMap fun comment => cleanLines comment.text) :
    said ≠ "" ∧ Trimmed said.toList ∧ '\n' ∉ said.toList := by
  obtain ⟨comment, -, hsaid⟩ := List.mem_flatMap.mp h
  exact mem_cleanLines hsaid

/-- A description, by the cleaned lines of each comment. -/
theorem ofComments_eq (comments : List Comment) (depth : Nat) :
    ofComments comments depth = lineBreak.intercalate
      ((comments.flatMap fun comment => cleanLines comment.text).map (indentation depth ++ ·)) := by
  have hclean : clean ("\n".intercalate (comments.map (·.text))) =
      lineBreak.intercalate (comments.flatMap fun comment => cleanLines comment.text) := by
    rw [clean, cleanLines_intercalate, List.flatMap_map]
  rw [ofComments, hclean, indent_intercalate]
  intro text htext
  obtain ⟨hne, -, hfeed⟩ := mem_flatMap_cleanLines htext
  exact ⟨hne, hfeed⟩

/-- **Descriptions are continuation lines.** The description that any comments give at any level is
empty, or it is lines that are joined by two spaces and a line feed. Each line is two spaces for
each level and a text that is not empty, neither starts nor ends with white space, and has no line
feed in it. These texts are what the comments say one by one, in their order: what is left of the
lines of each, where lines end with a line feed or with a carriage return and a line feed. -/
theorem descriptions_are_continuation_lines (comments : List Comment) (depth : Nat) :
    ∃ said : List (List String),
      (CommentsSay comments said ∧ ∀ said', CommentsSay comments said' → said' = said) ∧
      ofComments comments depth = "  \n".intercalate
        (said.flatten.map (String.ofList (List.replicate (2 * depth) ' ') ++ ·)) ∧
      (∀ text ∈ said.flatten, text ≠ "" ∧ Trimmed text.toList ∧ '\n' ∉ text.toList) ∧
      (ofComments comments depth = "" ↔ said.flatten = []) := by
  refine ⟨_, ⟨(commentsSay_iff comments _).mpr rfl, fun said' =>
    (commentsSay_iff comments said').mp⟩, ?_⟩
  rw [← List.flatMap_def]
  have hlayout := ofComments_eq comments depth
  refine ⟨hlayout, fun _ => mem_flatMap_cleanLines, fun hempty => ?_, fun hnothing => ?_⟩
  · cases hsaid : comments.flatMap fun comment => cleanLines comment.text with
    | nil => rfl
    | cons text texts =>
      have htext : text ≠ "" := (mem_flatMap_cleanLines (hsaid ▸ List.mem_cons_self)).1
      have hline : indentation depth ++ text ≠ "" := by simp [htext]
      rw [hsaid] at hlayout
      exact absurd (hlayout.symm.trans hempty) (intercalate_ne_empty hline _)
  · rw [hlayout, hnothing]
    rfl

-- Lines of decoration are left out, and of two stars one is the margin.
example : ofComments [⟨.block, "*\r\n * a\r\n\t** b \r\n ", 0, 1⟩, ⟨.line, "*", 40, 5⟩] 1 =
    "  a  \n  * b" := by decide

end SchemaDoc.Description
