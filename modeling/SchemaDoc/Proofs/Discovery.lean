import SchemaDoc.Config.Discovery
import SchemaDoc.Proofs.Pieces

/-!
# The nearest configuration

The search for a configuration goes up from a directory, one component at a time, and looks into
each directory for two things: a configuration, where it ends with success, and the mark of a
repository, where it ends without. This file says which file is found, among those of the ancestors.

* `Path.parent?_cases` says what going up does, on the *names* of a path, which are its components
  without the root: the last one is dropped, and a path without names has no parent. So a path has
  as many ancestors above it as names (`Path.isSome_ancestor?`), and none of them is missed by a
  search that is bounded by the number of pieces (`Path.getElem?_ancestors`).
* Joining adds a name, so different ancestors have different files (`Path.ancestor?_join_inj`): the
  path of a file that is found tells in which ancestor it is.
-/

namespace SchemaDoc

namespace Path

/-! ### Pieces -/

theorem pieces_eq (p : Path) : pieces p = (p.toList.splitOn '/').map String.ofList := by
  rw [pieces, splitSlash_eq_splitOn]

theorem exists_pieces (p : Path) : ∃ first rest, pieces p = first :: rest := by
  refine List.exists_cons_of_ne_nil fun h => List.splitOn_ne_nil '/' p.toList ?_
  rwa [pieces_eq, List.map_eq_nil_iff] at h

theorem notMem_of_mem_pieces {p : Path} {piece : String} (h : piece ∈ pieces p) :
    '/' ∉ piece.toList := by
  rw [pieces_eq] at h
  obtain ⟨cs, hcs, rfl⟩ := List.mem_map.mp h
  rw [String.toList_ofList]
  exact notMem_of_mem_splitOn hcs

theorem pieces_of_notMem {name : String} (h : '/' ∉ name.toList) : pieces name = [name] := by
  rw [pieces_eq, List.splitOn_eq_singleton h]
  simp

theorem pieces_append_slash (p q : Path) : pieces (p ++ "/" ++ q) = pieces p ++ pieces q := by
  have htext : (p ++ "/" ++ q).toList = p.toList ++ '/' :: q.toList := by simp
  rw [pieces_eq, htext, List.splitOn_append_cons_self, List.map_append, pieces_eq, pieces_eq]

theorem pieces_intercalate {ps : List String} (hne : ps ≠ [])
    (h : ∀ piece ∈ ps, '/' ∉ piece.toList) : pieces ("/".intercalate ps) = ps := by
  have htexts : ∀ cs ∈ ps.map String.toList, '/' ∉ cs := by
    simpa only [List.forall_mem_map] using h
  have hsplit := List.splitOn_intercalate '/' htexts (by simpa using hne)
  rw [pieces_eq, String.toList_intercalate]
  change List.map _ (List.splitOn '/' (List.intercalate ['/'] _)) = _
  rw [hsplit, List.map_map]
  simp

/-! ### Names -/

/-- **The names of a path**, which are its components without the root. The first piece is one
unless it is empty, the others are unless they are skipped. -/
def names (p : Path) : List String :=
  match pieces p with
  | [] => []
  | first :: rest => (if first = "" then [] else [first]) ++ rest.filter (!isSkipped ·)

theorem names_of_pieces {p : Path} {first : String} {rest : List String}
    (h : pieces p = first :: rest) :
    names p = (if first = "" then [] else [first]) ++ rest.filter (!isSkipped ·) := by
  rw [names, h]

theorem names_empty : names "" = [] := rfl

theorem length_names_le (p : Path) : (names p).length ≤ (pieces p).length := by
  obtain ⟨first, rest, hpieces⟩ := exists_pieces p
  have hrest := List.length_filter_le (!isSkipped ·) rest
  rw [names_of_pieces hpieces, hpieces, List.length_append, List.length_cons]
  split <;> simp only [List.length_nil, List.length_singleton] <;> omega

theorem names_append_slash (p q : Path) :
    names (p ++ "/" ++ q) = names p ++ (pieces q).filter (!isSkipped ·) := by
  obtain ⟨first, rest, hpieces⟩ := exists_pieces p
  have hboth : pieces (p ++ "/" ++ q) = first :: (rest ++ pieces q) := by
    rw [pieces_append_slash, hpieces, List.cons_append]
  rw [names_of_pieces hboth, names_of_pieces hpieces, List.filter_append, List.append_assoc]

/-- **Joining adds a name**, also to a path that ends with a slash. -/
theorem names_join (p : Path) {name : String} (hslash : '/' ∉ name.toList)
    (hname : isSkipped name = false) : names (join p name) = names p ++ [name] := by
  have hne : name ≠ "" := by
    rintro rfl
    cases hname
  have hrelative : isAbsolute name = false := by
    rw [isAbsolute, beq_eq_false_iff_ne]
    exact fun h => hslash (List.mem_of_head? h)
  have hlast (q : Path) : names (q ++ "/" ++ name) = names q ++ [name] := by
    rw [names_append_slash, pieces_of_notMem hslash]
    simp [hname]
  rw [join, hrelative, Bool.false_or]
  split
  next hempty =>
    obtain rfl := String.isEmpty_iff.mp hempty
    rw [names_of_pieces (pieces_of_notMem hslash), names_empty]
    simp [hne]
  next =>
    split
    next hend =>
      -- The path is another one and a slash, which only makes a last piece that is empty.
      obtain ⟨cs, hcs⟩ := List.getLast?_eq_some_iff.mp (beq_iff_eq.mp hend)
      obtain ⟨q, rfl⟩ : ∃ q : Path, p = q ++ "/" :=
        ⟨String.ofList cs, String.toList_injective (by simp [hcs])⟩
      have hslashed : names (q ++ "/" ++ "") = names q := by
        rw [names_append_slash]
        exact List.append_nil _
      rw [hlast, ← hslashed, String.append_empty]
    next => exact hlast p

/-! ### Parents -/

theorem dropSkipped_append (ps : List String) (first : String) :
    dropSkipped (ps ++ [first]) = ps.dropWhile isSkipped ++ [first] := by
  induction ps with
  | nil => rfl
  | cons piece ps ih =>
    obtain ⟨next, more, hmore⟩ : ∃ next more, ps ++ [first] = next :: more :=
      List.exists_cons_of_ne_nil (by simp)
    have hstep : dropSkipped (piece :: next :: more) =
        if isSkipped piece then dropSkipped (next :: more) else piece :: next :: more := rfl
    rw [List.cons_append, hmore, hstep, ← hmore, ih, List.dropWhile_cons]
    split <;> rfl

theorem filter_dropWhile_isSkipped (ps : List String) :
    (ps.dropWhile isSkipped).filter (!isSkipped ·) = ps.filter (!isSkipped ·) := by
  induction ps with
  | nil => rfl
  | cons piece ps ih =>
    rw [List.dropWhile_cons]
    split
    next h => rw [ih, List.filter_cons_of_neg (by simp [h])]
    next => rfl

theorem isAbsolute_iff {p : Path} {first : String} {rest : List String}
    (h : pieces p = first :: rest) : isAbsolute p = true ↔ first = "" ∧ rest ≠ [] := by
  rw [pieces_eq] at h
  rw [isAbsolute, beq_iff_eq]
  cases hp : p.toList with
  | nil =>
    rw [hp] at h
    obtain ⟨-, rfl⟩ := List.cons.inj h
    simp
  | cons c cs =>
    rw [hp, List.splitOn_cons_eq_if_modifyHead] at h
    obtain ⟨piece, pieces, hsplit⟩ := List.exists_cons_of_ne_nil (List.splitOn_ne_nil '/' cs)
    rw [hsplit] at h
    split at h
    next hc =>
      obtain ⟨hfirst, hrest⟩ := List.cons.inj h
      exact iff_of_true (congrArg some (beq_iff_eq.mp hc)) ⟨hfirst.symm, by simp [← hrest]⟩
    next hc =>
      obtain ⟨hfirst, -⟩ := List.cons.inj h
      refine iff_of_false (fun he => hc (beq_iff_eq.mpr (Option.some.inj he))) fun hboth => ?_
      have hempty := hfirst.trans hboth.1
      cases (String.ofList_eq_empty_iff.mp hempty)

/-- The path with the given pieces. Only the root itself ends with a slash. -/
def ofPieces (first : String) (rest : List String) : Path :=
  if first = "" ∧ rest = [] then "/" else "/".intercalate (first :: rest)

section OfPieces

variable {first : String} {rest : List String}

theorem pieces_ofPieces (hslash : ∀ piece ∈ first :: rest, '/' ∉ piece.toList)
    (hroot : ¬(first = "" ∧ rest = [])) : pieces (ofPieces first rest) = first :: rest := by
  rw [ofPieces, if_neg hroot]
  exact pieces_intercalate (List.cons_ne_nil _ _) hslash

theorem names_ofPieces (hslash : ∀ piece ∈ first :: rest, '/' ∉ piece.toList) :
    names (ofPieces first rest) =
      (if first = "" then [] else [first]) ++ rest.filter (!isSkipped ·) := by
  by_cases hroot : first = "" ∧ rest = []
  · obtain ⟨rfl, rfl⟩ := hroot
    rfl
  · exact names_of_pieces (pieces_ofPieces hslash hroot)

theorem isAbsolute_ofPieces (hslash : ∀ piece ∈ first :: rest, '/' ∉ piece.toList) :
    isAbsolute (ofPieces first rest) = true ↔ first = "" := by
  by_cases hroot : first = "" ∧ rest = []
  · obtain ⟨rfl, rfl⟩ := hroot
    exact iff_of_true rfl rfl
  · rw [isAbsolute_iff (pieces_ofPieces hslash hroot)]
    exact and_iff_left_of_imp fun hfirst hrest => hroot ⟨hfirst, hrest⟩

end OfPieces

theorem parent?_eq {p : Path} {name first : String} {more : List String}
    (h : dropSkipped (pieces p).reverse = name :: (more ++ [first])) :
    parent? p = some (ofPieces first (more.dropWhile isSkipped).reverse) := by
  obtain ⟨next, others, hmore⟩ : ∃ next others, more ++ [first] = next :: others :=
    List.exists_cons_of_ne_nil (by simp)
  rw [parent?, h, hmore]
  dsimp only
  rw [← hmore, dropSkipped_append]
  split
  next hroot =>
    obtain ⟨hkept, hfirst⟩ | ⟨-, hfirst⟩ := List.append_eq_singleton_iff.mp hroot
    · rw [hkept, List.singleton_inj.mp hfirst]
      rfl
    · cases hfirst
  next hroot =>
    rw [ofPieces, if_neg, List.reverse_append]
    · rfl
    · rintro ⟨rfl, hkept⟩
      exact hroot (by rw [List.reverse_eq_nil_iff.mp hkept, List.nil_append])

/-- **Going up**: a path without names has no parent, and the parent of any other path is the path
with the same root and without the last name. -/
theorem parent?_cases (p : Path) : (parent? p = none ∧ names p = []) ∨
    ∃ q name, parent? p = some q ∧ names p = names q ++ [name] ∧ isAbsolute q = isAbsolute p := by
  obtain ⟨first, rest, hpieces⟩ := exists_pieces p
  have hdropped : dropSkipped (pieces p).reverse = rest.reverse.dropWhile isSkipped ++ [first] := by
    rw [hpieces, List.reverse_cons, dropSkipped_append]
  have hnames : names p = (if first = "" then [] else [first]) ++
      ((rest.reverse.dropWhile isSkipped).filter (!isSkipped ·)).reverse := by
    rw [names_of_pieces hpieces, filter_dropWhile_isSkipped, List.filter_reverse,
      List.reverse_reverse]
  cases hkept : rest.reverse.dropWhile isSkipped with
  | nil =>
    -- All pieces but the first are skipped, so there is at most one name.
    rw [hkept, List.nil_append] at hdropped
    rw [hkept, List.filter_nil, List.reverse_nil, List.append_nil] at hnames
    have hparent : parent? p = if first == "" then none else some "" := by
      rw [parent?, hdropped]
    by_cases hfirst : first = ""
    · rw [if_pos hfirst] at hnames
      rw [if_pos (beq_iff_eq.mpr hfirst)] at hparent
      exact .inl ⟨hparent, hnames⟩
    · rw [if_neg hfirst] at hnames
      rw [if_neg (fun h => hfirst (beq_iff_eq.mp h))] at hparent
      have hrelative : isAbsolute p = false :=
        Bool.eq_false_iff.mpr fun h => hfirst ((isAbsolute_iff hpieces).mp h).1
      exact .inr ⟨"", first, hparent, hnames, hrelative.symm⟩
  | cons name more =>
    have hname : isSkipped name = false := by
      have hhead := List.head?_dropWhile_not isSkipped rest.reverse
      rwa [hkept] at hhead
    have hrest : rest ≠ [] := by
      rintro rfl
      cases hkept
    have hsub : (more.dropWhile isSkipped).reverse ⊆ rest := by
      have hmore : more ⊆ rest.reverse.dropWhile isSkipped :=
        hkept ▸ List.subset_cons_self name more
      intro piece hpiece
      refine List.mem_reverse.mp ((List.dropWhile_sublist isSkipped).subset (hmore ?_))
      exact (List.dropWhile_sublist isSkipped).subset (List.mem_reverse.mp hpiece)
    have hslash : ∀ piece ∈ first :: (more.dropWhile isSkipped).reverse, '/' ∉ piece.toList :=
      fun piece hpiece => notMem_of_mem_pieces (hpieces ▸ List.cons_subset_cons first hsub hpiece)
    rw [hkept, List.cons_append] at hdropped
    refine .inr ⟨_, name, parent?_eq hdropped, ?_, ?_⟩
    · rw [hnames, hkept, List.filter_cons_of_pos (by simp [hname]), names_ofPieces hslash,
        List.filter_reverse, filter_dropWhile_isSkipped, List.reverse_cons, List.append_assoc]
    · rw [Bool.eq_iff_iff, isAbsolute_ofPieces hslash, isAbsolute_iff hpieces, and_iff_left hrest]

/-! ### Ancestors -/

/-- The path that is left when the last component was dropped `n` times, if there were so many. -/
def ancestor? : Nat → Path → Option Path
  | 0, p => some p
  | n + 1, p => (parent? p).bind (ancestor? n)

/-- **A path has as many ancestors as names.** -/
theorem isSome_ancestor? (n : Nat) (p : Path) :
    (ancestor? n p).isSome ↔ n ≤ (names p).length := by
  induction n generalizing p with
  | zero => simp [ancestor?]
  | succ n ih =>
    rcases parent?_cases p with ⟨hparent, hnames⟩ | ⟨q, name, hparent, hnames, -⟩
    · simp [ancestor?, hparent, hnames]
    · simp [ancestor?, hparent, hnames, ih]

/-- **An ancestor** has the root of the path, and its first names. -/
theorem names_ancestor? {n : Nat} {p q : Path} (h : ancestor? n p = some q) :
    names q = (names p).take ((names p).length - n) ∧ isAbsolute q = isAbsolute p := by
  induction n generalizing p with
  | zero =>
    obtain rfl := Option.some.inj h
    exact ⟨(List.take_length).symm, rfl⟩
  | succ n ih =>
    rw [ancestor?] at h
    rcases parent?_cases p with ⟨hparent, -⟩ | ⟨r, name, hparent, hnames, habsolute⟩
    · rw [hparent] at h
      cases h
    · rw [hparent, Option.bind_some] at h
      obtain ⟨hq, hq'⟩ := ih h
      refine ⟨?_, hq'.trans habsolute⟩
      have hcount : (names r ++ [name]).length - (n + 1) = (names r).length - n := by simp
      rw [hq, hnames, hcount, List.take_append_of_le_length (Nat.sub_le _ _)]

/-- The number of an ancestor is the number of names that it lacks. -/
theorem length_names_ancestor? {n : Nat} {p q : Path} (h : ancestor? n p = some q) :
    (names q).length + n = (names p).length := by
  have hn := (isSome_ancestor? n p).mp (by rw [h]; rfl)
  rw [(names_ancestor? h).1, List.length_take]
  omega

/-- **Different ancestors hold different files.** -/
theorem ancestor?_join_inj {i j : Nat} {p q r : Path} (hq : ancestor? i p = some q)
    (hr : ancestor? j p = some r) {name : String} (hslash : '/' ∉ name.toList)
    (hname : isSkipped name = false) (h : join q name = join r name) : i = j := by
  have hnames : names q ++ [name] = names r ++ [name] := by
    rw [← names_join q hslash hname, h, names_join r hslash hname]
  have hi := length_names_ancestor? hq
  have hj := length_names_ancestor? hr
  rw [List.append_cancel_right hnames] at hi
  omega

theorem getElem?_ancestorsUpTo {fuel : Nat} {p : Path} (h : (names p).length ≤ fuel) (n : Nat) :
    (ancestorsUpTo fuel p)[n]? = ancestor? n p := by
  induction fuel generalizing p n with
  | zero =>
    rcases parent?_cases p with ⟨hparent, -⟩ | ⟨q, name, -, hnames, -⟩
    · cases n <;> simp [ancestorsUpTo, ancestor?, hparent]
    · rw [hnames, List.length_append] at h
      exact absurd h (Nat.not_succ_le_zero _)
  | succ fuel ih =>
    rcases parent?_cases p with ⟨hparent, -⟩ | ⟨q, name, hparent, hnames, -⟩
    · cases n <;> simp [ancestorsUpTo, ancestor?, hparent]
    · rw [hnames, List.length_append] at h
      have hq := ih (Nat.le_of_succ_le_succ h)
      cases n <;> simp [ancestorsUpTo, ancestor?, hparent, hq]

/-- **The ancestors of a path are all of them**: there are enough pieces to get to the last one. -/
theorem getElem?_ancestors (p : Path) (n : Nat) : (ancestors p)[n]? = ancestor? n p :=
  getElem?_ancestorsUpTo (length_names_le p) n

end Path

/-! ### The search -/

namespace Config

/-- A directory that the search goes through: it holds neither a configuration nor the mark of a
repository. -/
def Passed (fs : FileSystem) (dir : Path) : Prop :=
  fs.pathExists (Path.join dir fileName) = false ∧
    fs.pathExists (Path.join dir boundaryName) = false

/-- **What a search finds** among directories that are numbered from the first one on: the file of
the one that is the first not to be passed, if there is a file. -/
def Finds (fs : FileSystem) (dirs : Nat → Option Path) (file : Path) : Prop :=
  ∃ i dir, dirs i = some dir ∧ file = Path.join dir fileName ∧ fs.pathExists file = true ∧
    ∀ j < i, ∀ nearer, dirs j = some nearer → Passed fs nearer

theorem finds_cons_of_passed {fs : FileSystem} {dir : Path} {dirs : List Path} {file : Path}
    (h : Passed fs dir) : Finds fs ((dir :: dirs)[·]?) file ↔ Finds fs (dirs[·]?) file := by
  constructor
  · rintro ⟨_ | i, dir', hdir, hfile, hexists, hbefore⟩
    · obtain rfl := Option.some.inj hdir
      rw [hfile, h.1] at hexists
      cases hexists
    · exact ⟨i, dir', hdir, hfile, hexists, fun j hj => hbefore (j + 1) (Nat.succ_lt_succ hj)⟩
  · rintro ⟨i, dir', hdir, hfile, hexists, hbefore⟩
    refine ⟨i + 1, dir', hdir, hfile, hexists, fun j hj nearer hnearer => ?_⟩
    cases j with
    | zero => exact Option.some.inj hnearer ▸ h
    | succ j => exact hbefore j (Nat.lt_of_succ_lt_succ hj) nearer hnearer

theorem finds_cons_of_not_passed {fs : FileSystem} {dir : Path} {dirs : List Path} {file : Path}
    (h : ¬Passed fs dir) : Finds fs ((dir :: dirs)[·]?) file ↔
      file = Path.join dir fileName ∧ fs.pathExists file = true := by
  constructor
  · rintro ⟨_ | i, dir', hdir, hfile, hexists, hbefore⟩
    · obtain rfl := Option.some.inj hdir
      exact ⟨hfile, hexists⟩
    · exact absurd (hbefore 0 (Nat.succ_pos i) dir rfl) h
  · exact fun ⟨hfile, hexists⟩ =>
      ⟨0, dir, rfl, hfile, hexists, fun j hj => absurd hj (Nat.not_lt_zero j)⟩

theorem search_eq_some_iff {fs : FileSystem} {dirs : List Path} {file : Path} :
    search fs dirs = some file ↔ Finds fs (dirs[·]?) file := by
  induction dirs with
  | nil => simp [search, Finds]
  | cons dir dirs ih =>
    rw [search]
    split
    next hfile =>
      rw [finds_cons_of_not_passed fun h => Bool.false_ne_true (h.1.symm.trans hfile),
        Option.some_inj]
      exact ⟨fun h => ⟨h.symm, h ▸ hfile⟩, fun h => h.1.symm⟩
    next hfile =>
      split
      next hmark =>
        rw [finds_cons_of_not_passed fun h => Bool.false_ne_true (h.2.symm.trans hmark)]
        exact iff_of_false nofun fun h => hfile (h.1 ▸ h.2)
      next hmark =>
        rw [finds_cons_of_passed ⟨Bool.eq_false_iff.mpr hfile, Bool.eq_false_iff.mpr hmark⟩]
        exact ih

theorem find?_eq_some_iff {fs : FileSystem} {start file : Path} :
    find? fs start = some file ↔ Finds fs (Path.ancestor? · start) file := by
  rw [find?, search_eq_some_iff]
  simp only [Path.getElem?_ancestors]

/-- **The nearest configuration is found.** Let `start` be any directory in any tree, and let its
ancestors be the paths that are left when the last component is dropped again and again, `start`
itself among them. The file of an ancestor is found if and only if it is there and no nearer one
holds a configuration or the mark of a repository; nothing is found if and only if this is so for no
ancestor. Going up has an end: each ancestor has the root of `start` and its first names, one fewer
than the one before, and the last one has no names. -/
theorem nearest_config_is_found (fs : FileSystem) (start : Path) :
    (∀ i dir, Path.ancestor? i start = some dir →
      (find? fs start = some (Path.join dir ".docgenrc.json") ↔
        fs.pathExists (Path.join dir ".docgenrc.json") = true ∧
          ∀ j < i, ∀ nearer, Path.ancestor? j start = some nearer →
            fs.pathExists (Path.join nearer ".docgenrc.json") = false ∧
              fs.pathExists (Path.join nearer ".git") = false)) ∧
    (find? fs start = none ↔ ¬∃ i dir, Path.ancestor? i start = some dir ∧
      fs.pathExists (Path.join dir ".docgenrc.json") = true ∧
        ∀ j < i, ∀ nearer, Path.ancestor? j start = some nearer →
          fs.pathExists (Path.join nearer ".docgenrc.json") = false ∧
            fs.pathExists (Path.join nearer ".git") = false) ∧
    (∀ i, (Path.ancestor? i start).isSome ↔ i ≤ (Path.names start).length) ∧
    (∀ i dir, Path.ancestor? i start = some dir →
      Path.names dir = (Path.names start).take ((Path.names start).length - i) ∧
        Path.isAbsolute dir = Path.isAbsolute start) := by
  refine ⟨fun i dir hdir => ⟨fun h => ?_, fun h => ?_⟩, ⟨fun h => ?_, fun h => ?_⟩,
    fun i => Path.isSome_ancestor? i start, fun i dir hdir => Path.names_ancestor? hdir⟩
  · obtain ⟨k, dir', hdir', hfile, hexists, hbefore⟩ := find?_eq_some_iff.mp h
    obtain rfl : i = k := Path.ancestor?_join_inj hdir hdir' (by decide) (by decide) hfile
    exact ⟨hexists, hbefore⟩
  · exact find?_eq_some_iff.mpr ⟨i, dir, hdir, rfl, h.1, h.2⟩
  · rintro ⟨i, dir, hdir, hexists, hbefore⟩
    rw [find?_eq_some_iff.mpr ⟨i, dir, hdir, rfl, hexists, hbefore⟩] at h
    cases h
  · rw [Option.eq_none_iff_forall_ne_some]
    intro file hfile
    obtain ⟨i, dir, hdir, rfl, hexists, hbefore⟩ := find?_eq_some_iff.mp hfile
    exact h ⟨i, dir, hdir, hexists, hbefore⟩

/-- The search from `src/models` gets to the empty path. The working directory is the top of a
repository and has the configuration beside the mark, so that the mark is not looked for there. -/
theorem config_beside_mark_is_found :
    let fs := ((FileSystem.empty ["w"]).addNode ["w", ".git"] .directory).addNode
      ["w", ".docgenrc.json"] (.file "\x7b\x7d")
    Path.ancestor? 2 "src/models" = some "" ∧ fs.pathExists ".git" = true ∧
      find? fs "src/models" = some ".docgenrc.json" := by
  refine ⟨by decide +kernel, by decide +kernel, ?_⟩
  refine ((nearest_config_is_found _ "src/models").1 2 "" (by decide +kernel)).mpr
    ⟨by decide +kernel, fun j hj nearer hnearer => ?_⟩
  obtain rfl | rfl : j = 0 ∨ j = 1 := by omega
  · obtain rfl : nearer = "src/models" := Option.some.inj (hnearer.symm.trans (by decide +kernel))
    decide +kernel
  · obtain rfl : nearer = "src" := Option.some.inj (hnearer.symm.trans (by decide +kernel))
    decide +kernel

end Config

end SchemaDoc
