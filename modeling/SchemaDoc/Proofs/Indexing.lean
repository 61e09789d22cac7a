import Mathlib.Data.Finset.Card
import Mathlib.Data.Finset.Range
import Mathlib.Logic.Relation
import SchemaDoc.ModuleIndex

/-!
# What an index holds

An index is built by a loop over a queue: a module is taken from it, its specifiers are followed, and
every file that was not met before is loaded and waits in the queue in its turn. This file says what
the loop ends with, which is exactly what can be reached from the entry file, and that it ends.

Nothing of that holds at every moment for itself. That a link is missing is right as long as its
module waits; that no file is loaded twice rests on the table of places, which has to be the table of
the modules that are there; and the bound on the loop is enough because every module but the entry
takes a file of its own. So most of it is one invariant, `ModuleIndex.Builder.Sound`, which following
a single specifier keeps, and `ModuleIndex.Builder.Advances` says what following adds.
-/

namespace SchemaDoc

/-! ### Files -/

namespace FileSystem

variable {fs : FileSystem} {p : Path}

/-- The root is a directory, so whatever else is at a place is one of the nodes. -/
theorem mem_nodes_of_node? {place : Place} {node : Node} (h : fs.node? place = some node)
    (hnode : node ≠ .directory) : place ∈ fs.nodes.map Prod.fst := by
  unfold node? at h
  split at h
  · exact absurd (Option.some.inj h).symm hnode
  · obtain ⟨found, hfound, -⟩ := Option.map_eq_some_iff.mp h
    have hkey : found.1 = place := by simpa using List.find?_some hfound
    exact List.mem_map.mpr ⟨found, List.mem_of_find?_eq_some hfound, hkey⟩

/-- A file is at a place, and the place is one of the tree. -/
theorem place_of_isFile (h : fs.isFile p = true) :
    ∃ place, fs.canonical? p = some place ∧ place ∈ fs.nodes.map Prod.fst := by
  unfold isFile at h
  split at h
  next content hfind =>
    obtain ⟨place, hplace, hnode⟩ := Option.bind_eq_some_iff.mp hfind
    exact ⟨place, hplace, mem_nodes_of_node? hnode nofun⟩
  next hfind =>
    obtain ⟨place, hplace, hnode⟩ := Option.bind_eq_some_iff.mp hfind
    exact ⟨place, hplace, mem_nodes_of_node? hnode nofun⟩
  next => exact absurd h Bool.false_ne_true

end FileSystem

/-- **Only a file that is not found is reported as not found.** -/
theorem LoadFailure.message_eq_notFound {reason : LoadFailure}
    (h : reason.message = "file not found") : reason = .notFound := by
  cases reason with
  | notFound => rfl
  | notText => exact absurd h (by decide)
  | notJson => exact absurd h (by decide)
  | notScript failure =>
    have hhead := congrArg (fun s : String => s.toList.take 2) h
    have hfailed : failure.message.toList.take 2 = ['f', 'a'] := by
      unfold ParseFailure.message
      simp only [String.toList_append]
      rfl
    rw [show (LoadFailure.notScript failure).message = failure.message from rfl, hfailed] at hhead
    exact absurd hhead (by decide)

theorem nodup_eraseDups {α : Type} [BEq α] [LawfulBEq α] (as : List α) :
    as.eraseDups.Nodup := by
  induction h : as.length using Nat.strong_induction_on generalizing as with
  | _ n ih =>
    cases as with
    | nil => exact List.nodup_nil
    | cons a as =>
      rw [List.eraseDups_cons, List.nodup_cons, List.mem_eraseDups]
      refine ⟨by simp, ih _ ?_ _ rfl⟩
      have := List.length_filter_le (fun b => !b == a) as
      rw [List.length_cons] at h
      omega

theorem ParsedSource.ofText_nodup {source : String} {path : Path} {parsed : ParsedSource}
    (h : ParsedSource.ofText source path = .ok parsed) : parsed.requires.Nodup := by
  unfold ParsedSource.ofText at h
  simp only at h
  split at h
  · obtain rfl := Except.ok.inj h
    exact nodup_eraseDups _
  · exact nomatch h
  · exact nomatch h

namespace ModuleIndex

/-- Loading a file never fails because there is none. -/
theorem loadModule_ne_notFound (fs : FileSystem) (path : Path) :
    loadModule fs path ≠ .error .notFound := by
  unfold loadModule
  split
  · simp
  · split
    · split <;> simp
    · split <;> simp

/-- A module that is no script mentions nothing. -/
theorem loadModule_json {fs : FileSystem} {path : Path} {value : Json} {requires : List String}
    (h : loadModule fs path = .ok (.json value, requires)) : requires = [] := by
  unfold loadModule at h
  split at h
  · exact nomatch h
  · split at h
    · split at h
      · exact (Prod.mk.inj (Except.ok.inj h)).2.symm
      · exact nomatch h
    · split at h
      · exact nomatch (Prod.mk.inj (Except.ok.inj h)).1
      · exact nomatch h

/-- A module mentions nothing twice. -/
theorem loadModule_nodup {fs : FileSystem} {path : Path} {source : ModuleSource}
    {requires : List String} (h : loadModule fs path = .ok (source, requires)) :
    requires.Nodup := by
  unfold loadModule at h
  split at h
  · exact nomatch h
  · split at h
    · split at h
      · obtain ⟨-, rfl⟩ := Prod.mk.inj (Except.ok.inj h)
        exact List.nodup_nil
      · exact nomatch h
    · split at h
      next parsed hparsed =>
        obtain ⟨-, rfl⟩ := Prod.mk.inj (Except.ok.inj h)
        exact ParsedSource.ofText_nodup hparsed
      · exact nomatch h

/-! ### What an index should say -/

/-- The specifiers that a module mentions: those of the entry file are given, and those of any other
module are read from its file. -/
def specifiers (fs : FileSystem) (entry : List String) (index : ModuleIndex) :
    ModuleId → List String
  | 0 => entry
  | id + 1 =>
    match index.module? (id + 1) with
    | none => []
    | some m =>
      match loadModule fs m.path with
      | .ok (_, requires) => requires
      | .error _ => []

/-- The file that a specifier in a module means: the first one of its candidates that is a file. -/
def target? (fs : FileSystem) (index : ModuleIndex) (importer : ModuleId) (specifier : String) :
    Option Path :=
  (candidates (Path.directory (index.path importer)) specifier).find? fs.isFile

/-- **Where a link should lead**: to the module of the file that the specifier means, if there is
such a file and it can be loaded; and the entry file need not be loaded again. -/
def Correct (fs : FileSystem) (index : ModuleIndex) (importer : ModuleId) (specifier : String) :
    Link → Prop
  | .loaded j => j < index.modules.length ∧ ∃ file, index.target? fs importer specifier = some file ∧
      fs.canonical? (index.path j) = fs.canonical? file
  | .failed reason => (index.target? fs importer specifier = none → reason = .notFound) ∧
      ∀ file, index.target? fs importer specifier = some file →
        loadModule fs file = .error reason ∧ fs.canonical? file ≠ fs.canonical? (index.path 0)

theorem specifiers_nodup {fs : FileSystem} {entry : List String} (hentry : entry.Nodup)
    (index : ModuleIndex) (id : ModuleId) : (index.specifiers fs entry id).Nodup := by
  cases id with
  | zero => exact hentry
  | succ id =>
    simp only [specifiers]
    split
    · exact List.nodup_nil
    · split
      next hload => exact loadModule_nodup hload
      · exact List.nodup_nil

/-- One module requires another: a specifier in it leads there. -/
def Requires (index : ModuleIndex) (m n : ModuleId) : Prop :=
  ∃ specifier, index.link? m specifier = some (.loaded n)

theorem mem_links_of_link? {index : ModuleIndex} {m : ModuleId} {specifier : String} {link : Link}
    (h : index.link? m specifier = some link) : ((m, specifier), link) ∈ index.links := by
  obtain ⟨found, hfound, rfl⟩ := Option.map_eq_some_iff.mp h
  have hkey : found.1 = (m, specifier) := by simpa using List.find?_some hfound
  rw [← hkey]
  exact List.mem_of_find?_eq_some hfound

theorem link?_isSome {index : ModuleIndex} {m : ModuleId} {specifier : String} {link : Link}
    (h : ((m, specifier), link) ∈ index.links) : (index.link? m specifier).isSome := by
  rw [link?, Option.isSome_map, List.find?_isSome]
  exact ⟨_, h, by simp⟩

/-- If every key has one link, a link is what its key leads to. -/
theorem link?_of_mem {index : ModuleIndex} (hkeys : (index.links.map Prod.fst).Nodup)
    {m : ModuleId} {specifier : String} {link : Link}
    (h : ((m, specifier), link) ∈ index.links) : index.link? m specifier = some link := by
  obtain ⟨found, hfound⟩ := Option.isSome_iff_exists.mp (link?_isSome h)
  have hpair := List.inj_on_of_nodup_map hkeys (mem_links_of_link? hfound) h rfl
  rw [hfound, (Prod.mk.inj hpair).2]

/-! ### Larger indexes -/

/-- An index with more modules and links behind those of another one. -/
structure Extends (index index' : ModuleIndex) : Prop where
  modules : index.modules <+: index'.modules
  links : index.links <+: index'.links

namespace Extends

variable {fs : FileSystem} {index index' index'' : ModuleIndex} {m : ModuleId}

theorem refl (index : ModuleIndex) : index.Extends index :=
  ⟨List.prefix_refl _, List.prefix_refl _⟩

theorem trans (h : index.Extends index') (h' : index'.Extends index'') :
    index.Extends index'' :=
  ⟨h.modules.trans h'.modules, h.links.trans h'.links⟩

theorem length_le (h : index.Extends index') : index.modules.length ≤ index'.modules.length :=
  h.modules.length_le

theorem module? (h : index.Extends index') (hm : m < index.modules.length) :
    index'.module? m = index.module? m := by
  obtain ⟨more, hmore⟩ := h.modules
  rw [ModuleIndex.module?, ModuleIndex.module?, ← hmore, List.getElem?_append_left hm]

theorem path (h : index.Extends index') (hm : m < index.modules.length) :
    index'.path m = index.path m := by
  rw [ModuleIndex.path, ModuleIndex.path, h.module? hm]

theorem specifiers (h : index.Extends index') (hm : m < index.modules.length)
    (entry : List String) : index'.specifiers fs entry m = index.specifiers fs entry m := by
  cases m with
  | zero => rfl
  | succ id => simp only [ModuleIndex.specifiers, h.module? hm]

theorem target? (h : index.Extends index') (hm : m < index.modules.length) (specifier : String) :
    index'.target? fs m specifier = index.target? fs m specifier := by
  rw [ModuleIndex.target?, ModuleIndex.target?, h.path hm]

/-- A correct link stays correct. -/
theorem correct (h : index.Extends index') (hm : m < index.modules.length) {specifier : String}
    {link : Link} (hlink : index.Correct fs m specifier link) :
    index'.Correct fs m specifier link := by
  cases link with
  | loaded j =>
    obtain ⟨hj, file, htarget, hplace⟩ := hlink
    refine ⟨Nat.lt_of_lt_of_le hj h.length_le, file, ?_, ?_⟩
    · rw [h.target? hm, htarget]
    · rw [h.path hj, hplace]
  | failed reason =>
    obtain ⟨hnone, hsome⟩ := hlink
    refine ⟨fun htarget => hnone ?_, fun file htarget => ?_⟩
    · rwa [h.target? hm] at htarget
    · rw [h.path (Nat.zero_lt_of_lt hm)]
      rw [h.target? hm] at htarget
      exact hsome file htarget

end Extends

/-! ### The invariant of the loop -/

namespace Builder

/-- **What holds while an index is built.** The entry file comes first, and every other module is
what its file holds; the table of places is that of the modules, no two of which are at one place;
every link starts at a relative specifier of a module and leads where it should, and no specifier
has two; and what waits in the queue are specifiers of modules. -/
structure Sound (fs : FileSystem) (entry : SourceModule) (requires : List String) (b : Builder) :
    Prop where
  entry : b.index.module? 0 = some entry
  loaded : ∀ (id : Nat) (m : SourceModule), b.index.module? (id + 1) = some m →
    fs.isFile m.path = true ∧ ∃ requires, loadModule fs m.path = .ok (m.source, requires)
  places : ∀ (place : FileSystem.Place) (id : Nat), (place, id) ∈ b.places ↔
    id < b.index.modules.length ∧ fs.canonical? (b.index.path id) = some place
  distinct : ∀ i j : Nat, i < b.index.modules.length → j < b.index.modules.length →
    fs.canonical? (b.index.path i) = fs.canonical? (b.index.path j) → i = j
  links : ∀ (i : Nat) (s : String) (link : Link), ((i, s), link) ∈ b.index.links →
    i < b.index.modules.length ∧ s ∈ b.index.specifiers fs requires i ∧
      Path.isRelative s = true ∧ b.index.Correct fs i s link
  keys : (b.index.links.map Prod.fst).Nodup
  queue : ∀ (id : Nat) (specifiers : List String), (id, specifiers) ∈ b.queue →
    id < b.index.modules.length ∧ specifiers = b.index.specifiers fs requires id

/-- The first link to a module comes from an older module. -/
def FirstOlder (index : ModuleIndex) (j : Nat) : Prop :=
  ∃ (i : Nat) (s : String),
    index.links.find? (·.2 == .loaded j) = some ((i, s), .loaded j) ∧ i < j

/-- All relative specifiers of a module have a link. -/
def Followed (fs : FileSystem) (requires : List String) (b : Builder) (id : Nat) : Prop :=
  ∀ s ∈ b.index.specifiers fs requires id, Path.isRelative s = true →
    ∃ link, ((id, s), link) ∈ b.index.links

/-- The modules that wait in the queue. -/
def waiting (b : Builder) : List Nat := b.queue.map Prod.fst

/-- **What following specifiers of a module adds** to a builder: it forgets nothing, new links are
those of the specifiers, and the new modules wait behind the others, each first met in an older
one. -/
structure Advances (fs : FileSystem) (entry : SourceModule) (requires : List String)
    (importer : Nat) (specifiers : List String) (b b' : Builder) : Prop where
  sound : b'.Sound fs entry requires
  ext : b.index.Extends b'.index
  keys : ∀ link ∈ b'.index.links, link ∈ b.index.links ∨
    link.1.1 = importer ∧ link.1.2 ∈ specifiers
  waiting : b'.waiting = b.waiting ++
    List.range' b.index.modules.length (b'.index.modules.length - b.index.modules.length)
  older : ∀ id, b.index.modules.length ≤ id → id < b'.index.modules.length →
    FirstOlder b'.index id

theorem FirstOlder.extends {index index' : ModuleIndex} {j : Nat} (hj : FirstOlder index j)
    (h : index.Extends index') : FirstOlder index' j := by
  obtain ⟨i, s, hfirst, hlt⟩ := hj
  obtain ⟨more, hmore⟩ := h.links
  refine ⟨i, s, ?_, hlt⟩
  rw [← hmore, List.find?_append, hfirst]
  rfl

variable {fs : FileSystem} {entry : SourceModule} {requires : List String} {b b' b'' : Builder}
  {importer : Nat} {specifier : String} {specifiers more : List String}

namespace Advances

theorem refl (hb : b.Sound fs entry requires) :
    b.Advances fs entry requires importer specifiers b where
  sound := hb
  ext := .refl _
  keys _ h := Or.inl h
  waiting := by simp
  older _ hle hlt := absurd hlt (Nat.not_lt.mpr hle)

theorem trans (h : b.Advances fs entry requires importer specifiers b')
    (h' : b'.Advances fs entry requires importer more b'') :
    b.Advances fs entry requires importer (specifiers ++ more) b'' where
  sound := h'.sound
  ext := h.ext.trans h'.ext
  keys link hlink := by
    rcases h'.keys link hlink with hlink | ⟨himporter, hmem⟩
    · rcases h.keys link hlink with hlink | ⟨himporter, hmem⟩
      · exact Or.inl hlink
      · exact Or.inr ⟨himporter, List.mem_append_left _ hmem⟩
    · exact Or.inr ⟨himporter, List.mem_append_right _ hmem⟩
  waiting := by
    obtain ⟨k, hk⟩ := Nat.exists_eq_add_of_le h.ext.length_le
    obtain ⟨k', hk'⟩ := Nat.exists_eq_add_of_le h'.ext.length_le
    have hfirst : b'.index.modules.length - b.index.modules.length = k := by omega
    have hsecond : b''.index.modules.length - b'.index.modules.length = k' := by omega
    have hboth : b''.index.modules.length - b.index.modules.length = k + k' := by omega
    rw [h'.waiting, h.waiting, List.append_assoc, hfirst, hsecond, hboth, hk,
      List.range'_append_1]
  older id hle hlt := by
    rcases Nat.lt_or_ge id b'.index.modules.length with hid | hid
    · exact (h.older id hle hid).extends h'.ext
    · exact h'.older id hid hlt

/-- What was followed stays followed. -/
theorem followed (h : b.Advances fs entry requires importer specifiers b') {id : Nat}
    (hid : id < b.index.modules.length) (hf : b.Followed fs requires id) :
    b'.Followed fs requires id := by
  intro s hs hrelative
  rw [h.ext.specifiers hid] at hs
  obtain ⟨link, hlink⟩ := hf s hs hrelative
  exact ⟨link, h.ext.links.subset hlink⟩

end Advances

namespace Sound

/-- A module that is not the entry is at a place, and the place is one of the tree. -/
theorem place_of_module (hb : b.Sound fs entry requires) (id : Nat)
    (hid : id + 1 < b.index.modules.length) :
    ∃ place, fs.canonical? (b.index.path (id + 1)) = some place ∧
      place ∈ fs.nodes.map Prod.fst := by
  have hm : b.index.module? (id + 1) = some b.index.modules[id + 1] :=
    List.getElem?_eq_getElem hid
  have hpath : b.index.path (id + 1) = b.index.modules[id + 1].path := by
    rw [path, hm]
    rfl
  rw [hpath]
  exact FileSystem.place_of_isFile (hb.loaded id _ hm).1

/-- There are no more modules than files, and the entry. -/
theorem length_le (hb : b.Sound fs entry requires) :
    b.index.modules.length ≤ fs.nodes.length + 1 := by
  -- Every module but the entry is a file, and files at different places are different nodes.
  have hcard : (Finset.range (b.index.modules.length - 1)).card ≤
      (fs.nodes.map Prod.fst).toFinset.card := by
    refine Finset.card_le_card_of_injOn
      (fun id => (fs.canonical? (b.index.path (id + 1))).getD []) ?_ ?_
    · intro id hid
      have hid : id < b.index.modules.length - 1 := by simpa using hid
      obtain ⟨place, hp, hmem⟩ := hb.place_of_module id (by omega)
      simpa [hp] using hmem
    · intro i hi j hj hij
      have hi : i < b.index.modules.length - 1 := by simpa using hi
      have hj : j < b.index.modules.length - 1 := by simpa using hj
      obtain ⟨place, hp, -⟩ := hb.place_of_module i (by omega)
      obtain ⟨place', hp', -⟩ := hb.place_of_module j (by omega)
      have hsame : fs.canonical? (b.index.path (i + 1)) = fs.canonical? (b.index.path (j + 1)) := by
        simpa [hp, hp'] using hij
      have := hb.distinct (i + 1) (j + 1) (by omega) (by omega) hsame
      omega
  have hnodes := (fs.nodes.map Prod.fst).toFinset_card_le
  rw [Finset.card_range] at hcard
  rw [List.length_map] at hnodes
  omega

/-! ### One specifier -/

/-- Adding a correct link for a specifier that has none. -/
theorem addLink (hb : b.Sound fs entry requires) (hi : importer < b.index.modules.length)
    (hs : specifier ∈ b.index.specifiers fs requires importer)
    (hnone : (importer, specifier) ∉ b.index.links.map Prod.fst)
    (hrelative : Path.isRelative specifier = true) {link : Link}
    (hlink : b.index.Correct fs importer specifier link) :
    (b.addLink importer specifier link).Sound fs entry requires := by
  have hext : b.index.Extends (b.addLink importer specifier link).index :=
    ⟨List.prefix_refl _, List.prefix_append _ _⟩
  refine { hb with links := ?_, keys := ?_ }
  · intro i s l hl
    rcases List.mem_append.mp hl with hl | hl
    · obtain ⟨hi, hs, hrelative, hcorrect⟩ := hb.links i s l hl
      exact ⟨hi, hs, hrelative, hext.correct hi hcorrect⟩
    · obtain ⟨⟨rfl, rfl⟩, rfl⟩ : (i = importer ∧ s = specifier) ∧ l = link := by simpa using hl
      exact ⟨hi, hs, hrelative, hext.correct hi hlink⟩
  · change ((b.index.links ++ [((importer, specifier), link)]).map Prod.fst).Nodup
    rw [List.map_append, List.map_singleton]
    exact hb.keys.append (List.nodup_singleton _) (List.disjoint_singleton.mpr hnone)

theorem advances_addLink (hb : b.Sound fs entry requires) (hi : importer < b.index.modules.length)
    (hs : specifier ∈ b.index.specifiers fs requires importer)
    (hnone : (importer, specifier) ∉ b.index.links.map Prod.fst)
    (hrelative : Path.isRelative specifier = true) {link : Link}
    (hlink : b.index.Correct fs importer specifier link) :
    b.Advances fs entry requires importer [specifier] (b.addLink importer specifier link) where
  sound := hb.addLink hi hs hnone hrelative hlink
  ext := ⟨List.prefix_refl _, List.prefix_append _ _⟩
  keys l hl := by
    rcases List.mem_append.mp hl with hl | hl
    · exact Or.inl hl
    · obtain rfl := List.mem_singleton.mp hl
      exact Or.inr ⟨rfl, List.mem_singleton_self _⟩
  waiting := by simp [waiting, Builder.addLink]
  older _ hle hlt := absurd hlt (Nat.not_lt.mpr hle)

end Sound

/-- A builder with a module more, which waits, and no link to it yet. -/
def push (b : Builder) (m : SourceModule) (place : FileSystem.Place) (requires : List String)
    (log : Log) : Builder :=
  { index := { b.index with modules := b.index.modules ++ [m] }
    places := b.places ++ [(place, b.index.modules.length)]
    queue := b.queue ++ [(b.index.modules.length, requires)]
    log }

section Push

variable {m : SourceModule} {place : FileSystem.Place} {new : List String} {log : Log}

theorem length_push : (b.push m place new log).index.modules.length =
    b.index.modules.length + 1 := List.length_append

theorem extends_push : b.index.Extends (b.push m place new log).index :=
  ⟨List.prefix_append _ _, List.prefix_refl _⟩

theorem module?_push :
    (b.push m place new log).index.module? b.index.modules.length = some m := by
  simp [module?, push]

theorem path_push : (b.push m place new log).index.path b.index.modules.length = m.path := by
  rw [path, module?_push]
  rfl

/-- An old module, or the new one. -/
theorem lt_push_cases {id : Nat} (h : id < (b.push m place new log).index.modules.length) :
    id < b.index.modules.length ∨ id = b.index.modules.length := by
  rw [length_push] at h
  omega

theorem specifiers_push (hpos : 0 < b.index.modules.length)
    (hload : loadModule fs m.path = .ok (m.source, new)) :
    (b.push m place new log).index.specifiers fs requires b.index.modules.length = new := by
  have hm : (b.push m place new log).index.module? b.index.modules.length = some m := module?_push
  generalize b.index.modules.length = n at hpos hm
  cases n with
  | zero => exact absurd hpos (Nat.lt_irrefl 0)
  | succ id => simp only [ModuleIndex.specifiers, hm, hload]

namespace Sound

/-- Adding a module that is what its file holds, if none was loaded from its place. -/
theorem push (hb : b.Sound fs entry requires) (hpos : 0 < b.index.modules.length)
    (hfile : fs.isFile m.path = true) (hplace : fs.canonical? m.path = some place)
    (hnew : ∀ id, (place, id) ∉ b.places) (hload : loadModule fs m.path = .ok (m.source, new)) :
    (b.push m place new log).Sound fs entry requires := by
  have hext : b.index.Extends (b.push m place new log).index := extends_push
  -- An older module at the same place would be in the table.
  have hfresh (id : Nat) (hid : id < b.index.modules.length) :
      fs.canonical? (b.index.path id) ≠ some place := fun h =>
    hnew id ((hb.places place id).mpr ⟨hid, h⟩)
  constructor
  case entry => rw [hext.module? hpos, hb.entry]
  case loaded =>
    intro id m' hm'
    rcases lt_push_cases (List.getElem?_eq_some_iff.mp hm').1 with hid | hid
    · rw [hext.module? hid] at hm'
      exact hb.loaded id m' hm'
    · rw [hid, module?_push] at hm'
      obtain rfl := Option.some.inj hm'
      exact ⟨hfile, new, hload⟩
  case places =>
    intro place' id
    change (place', id) ∈ b.places ++ [(place, b.index.modules.length)] ↔ _
    rw [List.mem_append, hb.places, List.mem_singleton, Prod.mk.injEq]
    constructor
    · rintro (⟨hid, hp⟩ | ⟨rfl, rfl⟩)
      · exact ⟨Nat.lt_of_lt_of_le hid hext.length_le, by rw [hext.path hid, hp]⟩
      · exact ⟨by rw [length_push]; omega, by rw [path_push, hplace]⟩
    · rintro ⟨hid, hp⟩
      rcases lt_push_cases hid with hid | rfl
      · exact Or.inl ⟨hid, by rw [← hp, hext.path hid]⟩
      · rw [path_push, hplace] at hp
        exact Or.inr ⟨(Option.some.inj hp).symm, rfl⟩
  case distinct =>
    intro i j hi hj hsame
    rcases lt_push_cases hi with hi | rfl <;> rcases lt_push_cases hj with hj | rfl
    · rw [hext.path hi, hext.path hj] at hsame
      exact hb.distinct i j hi hj hsame
    · rw [hext.path hi, path_push, hplace] at hsame
      exact absurd hsame (hfresh i hi)
    · rw [hext.path hj, path_push, hplace] at hsame
      exact absurd hsame.symm (hfresh j hj)
    · rfl
  case links =>
    intro i s link hl
    obtain ⟨hi, hs, hrelative, hlink⟩ := hb.links i s link hl
    refine ⟨Nat.lt_of_lt_of_le hi hext.length_le, ?_, hrelative, hext.correct hi hlink⟩
    rwa [hext.specifiers hi]
  case keys => exact hb.keys
  case queue =>
    intro id specifiers hid
    rcases List.mem_append.mp hid with hid | hid
    · obtain ⟨hlt, rfl⟩ := hb.queue id specifiers hid
      exact ⟨Nat.lt_of_lt_of_le hlt hext.length_le, by rw [hext.specifiers hlt]⟩
    · obtain ⟨rfl, rfl⟩ : id = b.index.modules.length ∧ specifiers = new := by simpa using hid
      exact ⟨by rw [length_push]; omega, (specifiers_push hpos hload).symm⟩

/-- Nothing leads to a module before it is there. -/
theorem find?_new (hb : b.Sound fs entry requires) :
    b.index.links.find? (·.2 == .loaded b.index.modules.length) = none := by
  refine List.find?_eq_none.mpr ?_
  rintro ⟨⟨i, s⟩, link⟩ hlink hloaded
  obtain rfl : link = .loaded b.index.modules.length := by simpa using hloaded
  exact Nat.lt_irrefl _ (hb.links i s _ hlink).2.2.2.1

/-- **A file that was not met before.** -/
theorem advances_addModule (hb : b.Sound fs entry requires)
    (hi : importer < b.index.modules.length)
    (hs : specifier ∈ b.index.specifiers fs requires importer)
    (hnone : (importer, specifier) ∉ b.index.links.map Prod.fst)
    (hrelative : Path.isRelative specifier = true) {path : Path} {source : ModuleSource}
    (htarget : b.index.target? fs importer specifier = some path)
    (hplace : fs.canonical? path = some place) (hnew : ∀ id, (place, id) ∉ b.places)
    (hload : loadModule fs path = .ok (source, new)) :
    b.Advances fs entry requires importer [specifier]
      (b.addModule importer specifier path place source new) := by
  let pushed := b.push { path, source } place new (b.log.info s!"indexed module {path}")
  have hext : b.index.Extends pushed.index := extends_push
  have hlength : pushed.index.modules.length = b.index.modules.length + 1 := length_push
  have hpushed : pushed.Sound fs entry requires :=
    hb.push (Nat.zero_lt_of_lt hi) (List.find?_some htarget) hplace hnew hload
  have hcorrect : pushed.index.Correct fs importer specifier (.loaded b.index.modules.length) := by
    refine ⟨by rw [hlength]; exact Nat.lt_succ_self _, path, ?_, ?_⟩
    · rw [hext.target? hi, htarget]
    · rw [show pushed.index.path b.index.modules.length = path from path_push]
  have hadded := hpushed.advances_addLink
    (Nat.lt_of_lt_of_le hi hext.length_le) (by rwa [hext.specifiers hi]) hnone hrelative hcorrect
  refine ⟨hadded.sound, hext.trans hadded.ext, hadded.keys, ?_, ?_⟩
  · change (b.queue ++ [(b.index.modules.length, new)]).map Prod.fst = b.waiting ++
      List.range' b.index.modules.length (pushed.index.modules.length - b.index.modules.length)
    rw [hlength, Nat.add_sub_cancel_left, List.map_append]
    rfl
  · intro id hle hlt
    have hlt : id < b.index.modules.length + 1 := by rwa [← hlength]
    obtain rfl : id = b.index.modules.length := by omega
    refine ⟨importer, specifier, ?_, hi⟩
    change (b.index.links ++ [((importer, specifier),
      Link.loaded b.index.modules.length)]).find? _ = _
    rw [List.find?_append, hb.find?_new]
    simp

/-- **One file**, which is a module already, or can be loaded, or cannot. -/
theorem followTo (hb : b.Sound fs entry requires) (hi : importer < b.index.modules.length)
    (hs : specifier ∈ b.index.specifiers fs requires importer)
    (hnone : (importer, specifier) ∉ b.index.links.map Prod.fst)
    (hrelative : Path.isRelative specifier = true) {path : Path}
    (htarget : b.index.target? fs importer specifier = some path)
    (hplace : fs.canonical? path = some place) :
    b.Advances fs entry requires importer [specifier]
        (b.followTo fs importer specifier path place) ∧
      ∃ link, ((importer, specifier), link) ∈
        (b.followTo fs importer specifier path place).index.links := by
  unfold ModuleIndex.Builder.followTo
  split
  next place' id hfound =>
    have hkey : place' = place := by simpa using List.find?_some hfound
    obtain ⟨hid, hp⟩ := (hb.places place' id).mp (List.mem_of_find?_eq_some hfound)
    refine ⟨hb.advances_addLink hi hs hnone hrelative ⟨hid, path, htarget, ?_⟩, .loaded id, ?_⟩
    · rw [hp, hkey, hplace]
    · exact List.mem_append_right _ (List.mem_singleton_self _)
  next hunmet =>
    have hnew (id : Nat) : (place, id) ∉ b.places := fun hmem =>
      List.find?_eq_none.mp hunmet _ hmem (by simp)
    split
    next source new hload =>
      refine ⟨hb.advances_addModule hi hs hnone hrelative htarget hplace hnew hload,
        .loaded b.index.modules.length, ?_⟩
      exact List.mem_append_right _ (List.mem_singleton_self _)
    next reason hload =>
      -- The entry would have been found, so the file is another one.
      have hother : fs.canonical? path ≠ fs.canonical? (b.index.path 0) := fun hsame =>
        hnew 0 ((hb.places place 0).mpr ⟨Nat.zero_lt_of_lt hi, by rw [← hsame, hplace]⟩)
      have hlink : b.index.Correct fs importer specifier (.failed reason) := by
        refine ⟨fun hnone => ?_, fun file hfile => ?_⟩
        · rw [htarget] at hnone
          exact nomatch hnone
        · obtain rfl : path = file := Option.some.inj (htarget.symm.trans hfile)
          exact ⟨hload, hother⟩
      refine ⟨hb.advances_addLink hi hs hnone hrelative hlink, .failed reason, ?_⟩
      exact List.mem_append_right _ (List.mem_singleton_self _)

/-- **One specifier.** If it is relative it has a link afterwards. -/
theorem follow (hb : b.Sound fs entry requires) (hi : importer < b.index.modules.length)
    (hs : specifier ∈ b.index.specifiers fs requires importer)
    (hnone : (importer, specifier) ∉ b.index.links.map Prod.fst) :
    b.Advances fs entry requires importer [specifier] (b.follow fs importer specifier) ∧
      (Path.isRelative specifier = true → ∃ link,
        ((importer, specifier), link) ∈ (b.follow fs importer specifier).index.links) := by
  unfold ModuleIndex.Builder.follow
  split
  next hpackage => exact ⟨.refl hb, fun hrelative => by simp [hrelative] at hpackage⟩
  next hrelative =>
    have hrelative : Path.isRelative specifier = true := by simpa using hrelative
    split
    next htarget =>
      have htarget : b.index.target? fs importer specifier = none := htarget
      have hlink : b.index.Correct fs importer specifier (.failed .notFound) := by
        refine ⟨fun _ => rfl, fun file hfile => ?_⟩
        rw [htarget] at hfile
        exact nomatch hfile
      refine ⟨hb.advances_addLink hi hs hnone hrelative hlink, fun _ => ⟨.failed .notFound, ?_⟩⟩
      exact List.mem_append_right _ (List.mem_singleton_self _)
    next path htarget =>
      obtain ⟨place, hplace, -⟩ := FileSystem.place_of_isFile (List.find?_some htarget)
      rw [hplace]
      obtain ⟨hadvances, hlink⟩ := hb.followTo hi hs hnone hrelative htarget hplace
      exact ⟨hadvances, fun _ => hlink⟩

/-! ### All specifiers -/

/-- **All specifiers of a module**, or some of them, one after the other. -/
theorem followSpecifiers (hb : b.Sound fs entry requires) (hi : importer < b.index.modules.length)
    (specifiers : List String)
    (hs : ∀ s ∈ specifiers, s ∈ b.index.specifiers fs requires importer)
    (hnone : ∀ s ∈ specifiers, (importer, s) ∉ b.index.links.map Prod.fst)
    (hnodup : specifiers.Nodup) :
    b.Advances fs entry requires importer specifiers
        (specifiers.foldl (ModuleIndex.Builder.follow fs importer) b) ∧
      ∀ s ∈ specifiers, Path.isRelative s = true → ∃ link, ((importer, s), link) ∈
        (specifiers.foldl (ModuleIndex.Builder.follow fs importer) b).index.links := by
  induction specifiers generalizing b with
  | nil => exact ⟨.refl hb, nofun⟩
  | cons specifier specifiers ih =>
    obtain ⟨hfirst, hnodup⟩ := List.nodup_cons.mp hnodup
    obtain ⟨hstep, hlink⟩ :=
      hb.follow hi (hs specifier List.mem_cons_self) (hnone specifier List.mem_cons_self)
    -- The link that was added is one of the first specifier, and the others are different.
    have hnone' (s : String) (hmem : s ∈ specifiers) :
        (importer, s) ∉ (b.follow fs importer specifier).index.links.map Prod.fst := by
      intro hkey
      obtain ⟨link, hl, hkey⟩ := List.mem_map.mp hkey
      rcases hstep.keys link hl with hl | ⟨-, hl⟩
      · exact hnone s (List.mem_cons_of_mem _ hmem) (List.mem_map.mpr ⟨link, hl, hkey⟩)
      · rw [hkey, List.mem_singleton] at hl
        exact hfirst (hl ▸ hmem)
    obtain ⟨hrest, hlinks⟩ := ih hstep.sound (Nat.lt_of_lt_of_le hi hstep.ext.length_le)
      (fun s hmem => by
        rw [hstep.ext.specifiers hi]
        exact hs s (List.mem_cons_of_mem _ hmem)) hnone' hnodup
    refine ⟨hstep.trans hrest, fun s hmem hrelative => ?_⟩
    rcases List.mem_cons.mp hmem with rfl | hmem
    · obtain ⟨link, hl⟩ := hlink hrelative
      exact ⟨link, hrest.ext.links.subset hl⟩
    · exact hlinks s hmem hrelative

end Sound

end Push

/-! ### All modules -/

/-- A sound builder in which every module either waits, and has no links yet, or has been followed,
and was first met in an older one unless it is the entry. -/
structure Covers (fs : FileSystem) (entry : SourceModule) (requires : List String) (b : Builder) :
    Prop extends b.Sound fs entry requires where
  once : b.waiting.Nodup
  untouched : ∀ link ∈ b.index.links, link.1.1 ∉ b.waiting
  covered : ∀ id < b.index.modules.length, id ∈ b.waiting ∨ b.Followed fs requires id
  older : ∀ j, 0 < j → j < b.index.modules.length → FirstOlder b.index j

theorem Covers.waiting_lt (hb : b.Covers fs entry requires) {id : Nat} (h : id ∈ b.waiting) :
    id < b.index.modules.length := by
  obtain ⟨⟨id, specifiers⟩, hmem, rfl⟩ := List.mem_map.mp h
  exact (hb.queue id specifiers hmem).1

/-- **One turn of the loop**: the first module in the queue is followed, and there is one less to
come. -/
theorem Covers.turn {id : Nat} {queue : List (ModuleId × List String)}
    (hb : b.Covers fs entry requires) (hnodup : requires.Nodup)
    (hqueue : b.queue = (id, specifiers) :: queue) :
    (specifiers.foldl (follow fs id) { b with queue }).Covers fs entry requires ∧
      (specifiers.foldl (follow fs id) { b with queue }).queue.length +
        b.index.modules.length + 1 =
      b.queue.length + (specifiers.foldl (follow fs id) { b with queue }).index.modules.length := by
  obtain ⟨hid, rfl⟩ := hb.queue id specifiers (hqueue ▸ List.mem_cons_self)
  have hwaiting : b.waiting = id :: queue.map Prod.fst := by rw [waiting, hqueue]; rfl
  have hrest : Sound fs entry requires { b with queue } :=
    { hb.toSound with
      queue := fun id' s hmem => hb.queue id' s (hqueue ▸ List.mem_cons_of_mem _ hmem) }
  have huntouched (s : String) : (id, s) ∉ b.index.links.map Prod.fst := by
    intro hkey
    obtain ⟨link, hl, hkey⟩ := List.mem_map.mp hkey
    refine hb.untouched link hl ?_
    rw [hkey, hwaiting]
    exact List.mem_cons_self
  obtain ⟨hadvances, hlinks⟩ := hrest.followSpecifiers hid _ (fun _ h => h)
    (fun s _ => huntouched s) (specifiers_nodup hnodup _ _)
  set b' := (b.index.specifiers fs requires id).foldl (follow fs id) { b with queue }
  have hle : b.index.modules.length ≤ b'.index.modules.length := hadvances.ext.length_le
  have hnext : b'.waiting = queue.map Prod.fst ++ List.range' b.index.modules.length
      (b'.index.modules.length - b.index.modules.length) := hadvances.waiting
  have honce := hb.once
  rw [hwaiting, List.nodup_cons] at honce
  have hold {j : Nat} (hj : j ∈ queue.map Prod.fst) : j < b.index.modules.length :=
    hb.waiting_lt (hwaiting ▸ List.mem_cons_of_mem _ hj)
  refine ⟨⟨hadvances.sound, ?_, ?_, ?_, ?_⟩, ?_⟩
  · rw [hnext]
    refine honce.2.append (List.nodup_range' 1) fun j hj hj' => ?_
    exact Nat.not_le.mpr (hold hj) (List.mem_range'_1.mp hj').1
  · intro link hl
    rw [hnext, List.mem_append, List.mem_range'_1]
    rintro (hj | ⟨hj, -⟩)
    · rcases hadvances.keys link hl with hl | ⟨himporter, -⟩
      · exact hb.untouched link hl (hwaiting ▸ List.mem_cons_of_mem _ hj)
      · exact honce.1 (himporter ▸ hj)
    · rcases hadvances.keys link hl with hl | ⟨himporter, -⟩
      · exact Nat.not_lt.mpr hj (hb.links link.1.1 link.1.2 link.2 hl).1
      · exact Nat.not_lt.mpr hj (himporter ▸ hid)
  · intro j hj
    rw [hnext, List.mem_append, List.mem_range'_1]
    rcases Nat.lt_or_ge j b.index.modules.length with hlt | hnew
    · rcases hb.covered j hlt with hwaits | hfollowed
      · rcases List.mem_cons.mp (hwaiting ▸ hwaits) with rfl | hwaits
        · right
          intro s hs
          rw [hadvances.ext.specifiers hlt] at hs
          exact hlinks s hs
        · exact Or.inl (Or.inl hwaits)
      · exact Or.inr (hadvances.followed hlt hfollowed)
    · exact Or.inl (Or.inr ⟨hnew, by omega⟩)
  · intro j hpos hj
    rcases Nat.lt_or_ge j b.index.modules.length with hlt | hnew
    · exact (hb.older j hpos hlt).extends hadvances.ext
    · exact hadvances.older j hnew hj
  · have hlength := congrArg List.length hnext
    rw [waiting, List.length_append, List.length_map, List.length_map,
      List.length_range'] at hlength
    rw [hqueue, List.length_cons, hlength]
    omega

/-- **The whole loop.** It ends with an empty queue under every bound that leaves room for the files
that may still be met. -/
theorem Covers.followAll (hb : b.Covers fs entry requires) (hnodup : requires.Nodup) (fuel : Nat)
    (hfuel : fs.nodes.length + 1 + b.queue.length ≤ fuel + b.index.modules.length) :
    (followAll fs fuel b).Covers fs entry requires ∧ (followAll fs fuel b).queue = [] := by
  have hlength := hb.toSound.length_le
  induction fuel generalizing b with
  | zero =>
    have hqueue : b.queue.length = 0 := by omega
    exact ⟨hb, List.eq_nil_of_length_eq_zero hqueue⟩
  | succ fuel ih =>
    unfold ModuleIndex.Builder.followAll
    split
    next hqueue => exact ⟨hb, hqueue⟩
    next id specifiers queue hqueue =>
      obtain ⟨hturn, hbalance⟩ := hb.turn hnodup hqueue
      exact ih hturn (by omega) hturn.toSound.length_le

/-- A loop that is over stays as it is. -/
theorem followAll_of_le {fuel fuel' : Nat} (h : (followAll fs fuel b).queue = [])
    (hle : fuel ≤ fuel') : followAll fs fuel' b = followAll fs fuel b := by
  induction fuel generalizing b fuel' with
  | zero =>
    have hqueue : b.queue = [] := h
    cases fuel' with
    | zero => rfl
    | succ fuel' => simp [followAll, hqueue]
  | succ fuel ih =>
    obtain ⟨fuel', rfl⟩ := Nat.exists_eq_add_of_le' (Nat.le_trans (Nat.le_add_left 1 fuel) hle)
    unfold ModuleIndex.Builder.followAll at h ⊢
    split
    · rfl
    next id specifiers queue hqueue =>
      simp only [hqueue] at h
      exact ih h (by omega)

/-- The builder that an entry file starts with. -/
def start (fs : FileSystem) (path : Path) (parsed : ParsedSource) (log : Log) : Builder :=
  { index := { modules := [{ path, source := .script parsed.program.reattach }], links := [] }
    places := ((fs.canonical? path).map fun place => (place, 0)).toList
    queue := [(0, parsed.requires)]
    log }

theorem start_covers (fs : FileSystem) (path : Path) (parsed : ParsedSource) (log : Log) :
    (start fs path parsed log).Covers fs { path, source := .script parsed.program.reattach }
      parsed.requires := by
  have honly {id : Nat} (h : id < (start fs path parsed log).index.modules.length) : id = 0 :=
    Nat.lt_one_iff.mp h
  constructor
  case toSound =>
    constructor
    case entry => rfl
    case loaded =>
      intro id m hm
      exact absurd (honly (List.getElem?_eq_some_iff.mp hm).1) (Nat.succ_ne_zero id)
    case places =>
      intro place id
      constructor
      · intro hmem
        obtain ⟨place', hplace, hpair⟩ : ∃ place', fs.canonical? path = some place' ∧
            (place', 0) = (place, id) := by simpa [start] using hmem
        obtain ⟨rfl, rfl⟩ := Prod.mk.inj hpair
        exact ⟨Nat.one_pos, hplace⟩
      · rintro ⟨hid, hplace⟩
        obtain rfl := honly hid
        have hplace : fs.canonical? path = some place := hplace
        simp [start, hplace]
    case distinct =>
      intro i j hi hj _
      rw [honly hi, honly hj]
    case links => exact fun i s link hl => absurd hl List.not_mem_nil
    case keys => exact List.nodup_nil
    case queue =>
      intro id specifiers hmem
      obtain ⟨rfl, rfl⟩ : id = 0 ∧ specifiers = parsed.requires := by simpa [start] using hmem
      exact ⟨Nat.one_pos, rfl⟩
  case once => exact List.nodup_singleton 0
  case untouched => exact fun link hl => absurd hl List.not_mem_nil
  case covered =>
    intro id hid
    obtain rfl := honly hid
    exact Or.inl (List.mem_singleton_self 0)
  case older =>
    intro j hpos hj
    exact absurd (honly hj) (Nat.ne_of_gt hpos)

end Builder

/-! ### The index of an entry file -/

/-- **An index that is what can be reached from an entry file.** The entry comes first and every
other module is what its file holds. Exactly the relative specifiers of scripts have a link; it is
one to a file that is not found if no candidate is a file, and if it leads to a module, then to the
one at the place of the first candidate that is a file. No two modules are at one place, and what
leads back to the entry file leads to the first module. Every other module is reached from there,
and the first link to it comes from an older one. -/
structure Reached (fs : FileSystem) (path : Path) (parsed : ParsedSource) (index : ModuleIndex) :
    Prop where
  entry : index.module? 0 = some { path, source := .script parsed.program.reattach }
  others : ∀ (j : Nat) (m : SourceModule), index.module? (j + 1) = some m →
    ∃ requires, loadModule fs m.path = .ok (m.source, requires)
  link_iff : ∀ i s, (index.link? i s).isSome ↔ (index.program? i).isSome ∧
    s ∈ index.specifiers fs parsed.requires i ∧ Path.isRelative s = true
  notFound_iff : ∀ i s, (index.link? i s).isSome →
    ((∃ reason, index.link? i s = some (.failed reason) ∧ reason.message = "file not found") ↔
      ∀ file ∈ candidates (Path.directory (index.path i)) s, fs.isFile file = false)
  loaded : ∀ i s (j : Nat), index.link? i s = some (.loaded j) → j < index.modules.length ∧
    ∃ file place, (candidates (Path.directory (index.path i)) s).find? fs.isFile = some file ∧
      fs.canonical? file = some place ∧ fs.canonical? (index.path j) = some place
  distinct : ∀ i j : Nat, i < index.modules.length → j < index.modules.length →
    fs.canonical? (index.path i) = fs.canonical? (index.path j) → i = j
  back : ∀ i s file, (index.link? i s).isSome →
    (candidates (Path.directory (index.path i)) s).find? fs.isFile = some file →
    fs.canonical? file = fs.canonical? path → index.link? i s = some (.loaded 0)
  reached : ∀ j : Nat, 0 < j → j < index.modules.length →
    Relation.ReflTransGen index.Requires 0 j
  first : ∀ j : Nat, 0 < j → j < index.modules.length → ∃ (i : Nat) (s : String),
    index.links.find? (·.2 == .loaded j) = some ((i, s), .loaded j) ∧ i < j

namespace Builder

variable {fs : FileSystem} {path : Path} {parsed : ParsedSource} {b : Builder}

/-- A link of a sound builder leads where it should. -/
theorem Sound.correct {entry : SourceModule} {requires : List String}
    (hb : b.Sound fs entry requires) {i : Nat} {s : String} {link : Link}
    (h : b.index.link? i s = some link) : b.index.Correct fs i s link :=
  (hb.links i s link (mem_links_of_link? h)).2.2.2

/-- A module that mentions something is a script. -/
theorem Sound.program?_isSome {program : Program} {requires : List String}
    (hb : b.Sound fs { path, source := .script program } requires) {i : Nat} {s : String}
    (hs : s ∈ b.index.specifiers fs requires i) : (b.index.program? i).isSome := by
  cases i with
  | zero =>
    rw [program?, hb.entry]
    rfl
  | succ id =>
    rcases hm : b.index.module? (id + 1) with _ | m
    · simp [specifiers, hm] at hs
    obtain ⟨-, requires', hload⟩ := hb.loaded id m hm
    simp only [specifiers, hm, hload] at hs
    rw [program?, hm, Option.bind_some, SourceModule.program?]
    cases hsource : m.source with
    | script program => rfl
    | json value =>
      rw [hsource] at hload
      rw [loadModule_json hload] at hs
      exact absurd hs List.not_mem_nil

theorem Sound.notFound_iff {entry : SourceModule} {requires : List String}
    (hb : b.Sound fs entry requires) {i : Nat} {s : String} (h : (b.index.link? i s).isSome) :
    (∃ reason, b.index.link? i s = some (.failed reason) ∧ reason.message = "file not found") ↔
      ∀ file ∈ candidates (Path.directory (b.index.path i)) s, fs.isFile file = false := by
  obtain ⟨link, hlink⟩ := Option.isSome_iff_exists.mp h
  have hcorrect := hb.correct hlink
  have hnone : b.index.target? fs i s = none ↔
      ∀ file ∈ candidates (Path.directory (b.index.path i)) s, fs.isFile file = false := by
    simp [target?, List.find?_eq_none]
  rw [← hnone]
  constructor
  · rintro ⟨reason, hfailed, hmessage⟩
    rw [hfailed, LoadFailure.message_eq_notFound hmessage] at hlink
    obtain rfl := Option.some.inj hlink
    rcases htarget : b.index.target? fs i s with _ | file
    · rfl
    · exact absurd (hcorrect.2 file htarget).1 (loadModule_ne_notFound fs file)
  · intro htarget
    cases link with
    | loaded j =>
      obtain ⟨-, file, hfile, -⟩ := hcorrect
      rw [htarget] at hfile
      exact nomatch hfile
    | failed reason =>
      obtain rfl := hcorrect.1 htarget
      exact ⟨.notFound, hlink, rfl⟩

/-- **What the loop ends with**, once nothing waits any more. -/
theorem Covers.reached
    (hb : b.Covers fs { path, source := .script parsed.program.reattach } parsed.requires)
    (hqueue : b.queue = []) : b.index.Reached fs path parsed := by
  have hpath : b.index.path 0 = path := by
    rw [ModuleIndex.path, hb.entry]
    rfl
  have holder {j : Nat} (hpos : 0 < j) (hj : j < b.index.modules.length) :
      ∃ i : Nat, i < j ∧ b.index.Requires i j := by
    obtain ⟨i, s, hfirst, hlt⟩ := hb.older j hpos hj
    exact ⟨i, hlt, s, link?_of_mem hb.keys (List.mem_of_find?_eq_some hfirst)⟩
  constructor
  case entry => exact hb.entry
  case others => exact fun j m hm => (hb.loaded j m hm).2
  case link_iff =>
    intro i s
    constructor
    · intro h
      obtain ⟨link, hlink⟩ := Option.isSome_iff_exists.mp h
      obtain ⟨-, hs, hrelative, -⟩ := hb.links i s link (mem_links_of_link? hlink)
      exact ⟨hb.program?_isSome hs, hs, hrelative⟩
    · rintro ⟨hprogram, hs, hrelative⟩
      have hi : i < b.index.modules.length := by
        obtain ⟨m, hm, -⟩ := Option.bind_eq_some_iff.mp (Option.some_get hprogram).symm
        exact (List.getElem?_eq_some_iff.mp hm).1
      rcases hb.covered i hi with hwaits | hfollowed
      · simp [waiting, hqueue] at hwaits
      · obtain ⟨link, hlink⟩ := hfollowed s hs hrelative
        exact link?_isSome hlink
  case notFound_iff => exact fun i s => hb.notFound_iff
  case loaded =>
    intro i s j hlink
    obtain ⟨hj, file, htarget, hsame⟩ := hb.correct hlink
    obtain ⟨place, hplace, -⟩ := FileSystem.place_of_isFile (List.find?_some htarget)
    exact ⟨hj, file, place, htarget, hplace, by rw [hsame, hplace]⟩
  case distinct => exact hb.distinct
  case back =>
    intro i s file h htarget hsame
    obtain ⟨link, hlink⟩ := Option.isSome_iff_exists.mp h
    have hcorrect := hb.correct hlink
    have htarget : b.index.target? fs i s = some file := htarget
    cases link with
    | loaded j =>
      obtain ⟨hj, file', htarget', hsame'⟩ := hcorrect
      obtain rfl : file' = file := Option.some.inj (htarget'.symm.trans htarget)
      have hzero : fs.canonical? (b.index.path j) = fs.canonical? (b.index.path 0) := by
        rw [hsame', hsame, hpath]
      rw [hlink, hb.distinct j 0 hj (Nat.zero_lt_of_lt hj) hzero]
    | failed reason =>
      have hother := (hcorrect.2 file htarget).2
      rw [hpath] at hother
      exact absurd hsame hother
  case reached =>
    intro j hpos hj
    -- The older module is the entry, or is reached itself.
    induction j using Nat.strong_induction_on with
    | _ j ih =>
      obtain ⟨i, hlt, hrequires⟩ := holder hpos hj
      rcases Nat.eq_zero_or_pos i with rfl | hipos
      · exact .single hrequires
      · exact (ih i hlt hipos (Nat.lt_trans hlt hj)).tail hrequires
  case first => exact hb.older

end Builder

theorem ofText_of_parsed {fs : FileSystem} {text : String} {path : Path} {log : Log}
    {parsed : ParsedSource} (h : ParsedSource.ofText text path = .ok parsed) :
    ofText fs text path log =
      .ok ((Builder.followAll fs (fs.nodes.length + 1) (.start fs path parsed log)).index,
        (Builder.followAll fs (fs.nodes.length + 1) (.start fs path parsed log)).log) := by
  unfold ofText
  simp only [h]
  rfl

theorem ofText_of_failure {fs : FileSystem} {text : String} {path : Path} {log : Log}
    {failure : ParseFailure} (h : ParsedSource.ofText text path = .error failure) :
    ofText fs text path log = .error (.parse failure) := by
  unfold ofText
  simp only [h]

/-- The index of an entry file is what the loop leaves, which has nothing left to follow. -/
theorem ofText_reached (fs : FileSystem) {text : String} {path : Path} (log : Log)
    {parsed : ParsedSource} (hparsed : ParsedSource.ofText text path = .ok parsed) :
    let b := Builder.followAll fs (fs.nodes.length + 1) (.start fs path parsed log)
    ofText fs text path log = .ok (b.index, b.log) ∧ b.queue = [] ∧
      b.index.Reached fs path parsed := by
  intro b
  have hbound : fs.nodes.length + 1 + (Builder.start fs path parsed log).queue.length ≤
      fs.nodes.length + 1 + (Builder.start fs path parsed log).index.modules.length := le_rfl
  obtain ⟨hcovers, hqueue⟩ := (Builder.start_covers fs path parsed log).followAll
    (ParsedSource.ofText_nodup hparsed) (fs.nodes.length + 1) hbound
  exact ⟨ofText_of_parsed hparsed, hqueue, hcovers.reached hqueue⟩

/-- **The index of an entry file is what can be reached from it.** For every file system and every
text that parses there is an index; the loop that builds it ends with nothing left to follow, under
every bound that is above the number of nodes of the file system, and with the same index. -/
theorem index_is_what_is_reached (fs : FileSystem) (text : String) (path : Path) (log : Log)
    {parsed : ParsedSource} (hparsed : ParsedSource.ofText text path = .ok parsed) :
    ∃ b : Builder, ofText fs text path log = .ok (b.index, b.log) ∧
      (b.queue = [] ∧ ∀ bound, fs.nodes.length < bound →
        Builder.followAll fs bound (.start fs path parsed log) = b) ∧
      b.index.Reached fs path parsed := by
  obtain ⟨hindex, hqueue, hreached⟩ := ofText_reached fs log hparsed
  refine ⟨_, hindex, ⟨hqueue, fun bound hle => ?_⟩, hreached⟩
  exact Builder.followAll_of_le hqueue hle

/-- Two files that mention each other, one of them in two spellings and by a link, and a file that
is missing. -/
theorem index_of_cycle :
    let text := "const b = require('./b'), c = require('./lib/../b.js'), d = require('./alias');"
    let fs : FileSystem :=
      { nodes := [(["b.js"], .file "require('./model'); require('./missing');"),
          (["model.js"], .file text), (["lib"], .directory), (["alias.js"], .link "lib/../b.js")]
        workingDirectory := [] }
    ∃ parsed, ParsedSource.ofText text "model.js" = .ok parsed ∧
      ∃ b : Builder, ofText fs text "model.js" (.empty false) = .ok (b.index, b.log) ∧
        (b.queue = [] ∧ ∀ bound, fs.nodes.length < bound →
          Builder.followAll fs bound (.start fs "model.js" parsed (.empty false)) = b) ∧
        b.index.Reached fs "model.js" parsed ∧
        b.index.link? 0 "./lib/../b.js" = some (.loaded 1) ∧
        b.index.link? 0 "./alias" = some (.loaded 1) ∧
        b.index.link? 1 "./model" = some (.loaded 0) ∧
        b.index.link? 1 "./missing" = some (.failed .notFound) := by
  intro text fs
  have hlinks : (match ofText fs text "model.js" (.empty false) with
      | .ok (index, _) => decide (index.link? 0 "./lib/../b.js" = some (.loaded 1) ∧
          index.link? 0 "./alias" = some (.loaded 1) ∧ index.link? 1 "./model" = some (.loaded 0) ∧
          index.link? 1 "./missing" = some (.failed .notFound))
      | .error _ => false) = true := by decide +kernel
  cases hparsed : ParsedSource.ofText text "model.js" with
  | error failure =>
    rw [ofText_of_failure hparsed] at hlinks
    exact absurd hlinks Bool.false_ne_true
  | ok parsed =>
    obtain ⟨b, hindex, hqueue, hreached⟩ :=
      index_is_what_is_reached fs text "model.js" (.empty false) hparsed
    rw [hindex] at hlinks
    exact ⟨parsed, rfl, b, hindex, hqueue, hreached, of_decide_eq_true hlinks⟩

end ModuleIndex

end SchemaDoc
