import SchemaDoc.Proofs.Indexing
import SchemaDoc.Proofs.Rendering
import SchemaDoc.Proofs.Rules

/-!
# A byte order mark in front of a file

A byte order mark is dropped before a text is parsed, and offsets do not count it; but the program
keeps the text as it was given. So whatever is cut out of the text by offsets starts three bytes too
early if there is a mark. This file says how far that goes.

Only the section of the indexes is cut out of the text: it shows the arguments of the calls that add
them. Everything else is the same with a mark and without, the errors and the reports included. The
computed keys of an object literal are also shown as they are written, but they are taken from the
text that was parsed.

There are three steps. Evaluation never asks for the text of a module, so it is the same over two
indexes that differ in texts only (`request_sameButTexts`), and so are the sections of the schemas
(`Document.schemaSections_sameButTexts`). Building an index never looks at the text of the entry file
again, so a mark leaves all but this text unchanged (`ModuleIndex.ofText_withMark`). What is left is to
compare two documents that have all but their last section in common.
-/

namespace SchemaDoc

/-! ### Evaluation without texts -/

/-- Two environments that differ at most in the texts of their modules. -/
structure Environment.SameButTexts (env env' : Environment) : Prop where
  index : env'.index.textless = env.index.textless
  config : env'.config = env.config

section SameButTexts

variable {env env' : Environment} (h : env.SameButTexts env')

include h

/-- What is asked of an index, its texts apart, has the same answer. -/
theorem Environment.SameButTexts.ask {α : Type} {f : ModuleIndex → α}
    (hf : ∀ index, f index.textless = f index) : f env'.index = f env.index := by
  rw [← hf env'.index, h.index, hf]

/-- **The logic of the same runs**: evaluation is the same over both environments. -/
def Environment.SameButTexts.logic : Logic Session Session env where
  Own _ := True
  Holds _ x y s _ := x env s = y env' s
  pure _ := rfl
  bind := by
    intro α β k x y f g s t hx hf
    rcases Eval.run_bind_cases x f env s with ⟨a, s', hrun, hbind⟩ | ⟨e, s', hrun, hbind⟩
    · rw [hbind, Eval.run_bind_ok (hx.symm.trans hrun)]
      exact hf a s' s'
    · rw [hbind, Eval.run_bind_error (hx.symm.trans hrun)]
  lower hx := hx
  index := by
    intro α k f g s t _ hg hx
    change f env.index env s = g env'.index env' s
    rw [h.ask hg]
    exact hx
  config := by
    intro α k f g s t hx
    change f env.config env s = g env'.config env' s
    rw [h.config]
    exact hx
  asks _ hx := hx
  fail _ := rfl
  warn _ := rfl
  newScope := by
    intro α k parent f g s t hf
    rw [Eval.run_newScope_bind, Eval.run_newScope_bind]
    exact hf _ { s with frames := (s.frames.child parent []).1 } t trivial
  bindName _ _ _ := rfl
  countCall _ := rfl
  calling := by
    intro α k x y s t _ hx
    simp only [Eval.whileCalling, Eval.run_bracket]
    rw [hx _ t]
  resolving := by
    intro α k m name x y s t _ hintroduced hnot
    simp only [Eval.whileResolving, Eval.run_bracket]
    rw [Classical.byCases hintroduced hnot _ t]
  exporting := by
    intro k m x y s t _ _ hindexed hnot
    have hx : Eval.whileExporting m x env s = Eval.whileExporting m y env' s := by
      simp only [Eval.whileExporting, Eval.run_bracket]
      rw [Classical.byCases hindexed hnot _ t]
    rw [Eval.run_remember, Eval.run_remember, hx]

/-- **Evaluation does not depend on texts.** -/
theorem request_sameButTexts (r : Request) (s : Session) : r.run env s = r.run env' s :=
  Logic.request (L := h.logic) (fun _ _ => rfl) r s s

end SameButTexts

/-! ### Documents without texts -/

namespace Document

variable {env env' : Environment}

/-- The entry files of both environments have all but their text in common. -/
theorem program?_sameButTexts (h : env.SameButTexts env') :
    (env'.index.program? 0).map Program.textless = (env.index.program? 0).map Program.textless := by
  rw [← ModuleIndex.program?_textless, h.index, ModuleIndex.program?_textless]

/-- Being the same over both environments is a rule of rendering. -/
def rendersAlike (h : env.SameButTexts env') : Rule env where
  Holds x s := x env s = x env' s
  pure _ := rfl
  stop _ := rfl
  bind {_ _ _ _ s} hx hf := h.logic.bind (k := 0) (t := s) hx fun a s _ => hf a s
  entry := by
    intro α f s hf hx
    have hprograms := program?_sameButTexts h
    cases hprogram : env.index.program? 0 with
    | none =>
      have hprogram' : env'.index.program? 0 = none := by
        rw [hprogram] at hprograms
        exact Option.map_eq_none_iff.mp hprograms
      rw [Eval.run_bind_error ((run_entryProgram env s).trans (by rw [hprogram])),
        Eval.run_bind_error ((run_entryProgram env' s).trans (by rw [hprogram']))]
    | some program =>
      rw [hprogram] at hprograms
      obtain ⟨program', hprogram', htextless⟩ := Option.map_eq_some_iff.mp hprograms
      rw [Eval.run_bind_ok ((run_entryProgram env s).trans (by rw [hprogram])),
        Eval.run_bind_ok ((run_entryProgram env' s).trans (by rw [hprogram'])),
        ← hf program', htextless, hf]
      exact hx program s
  config {_ _ s} hx := h.logic.config (k := 0) (t := s) hx
  warn _ := rfl
  info _ := rfl
  request r := request_sameButTexts h r _

/-- **The sections of the schemas do not depend on texts.** -/
theorem schemaSections_sameButTexts (h : env.SameButTexts env') (fuel : Nat) (program : Program)
    (s : Session) : schemaSections fuel program env s = schemaSections fuel program env' s :=
  (rendersAlike h).schemaSections fuel program s

theorem schemasIn_textless (program : Program) (config : Config) (ds : List Declarator) :
    schemasIn program.textless config ds = schemasIn program config ds := by
  have hfields (e : Expr) (schema : String) : schemaFields program.textless config e schema =
      schemaFields program config e schema := rfl
  induction ds with
  | nil => rfl
  | cons d ds ih => simp only [schemasIn, hfields, ih]

theorem subSections_textless (fuel : Nat) (program : Program) (ds : List SchemaDecl) :
    subSections fuel program.textless ds = subSections fuel program ds := by
  have hblock (d : SchemaDecl) : schemaBlock fuel program.textless d = schemaBlock fuel program d :=
    rfl
  induction ds with
  | nil => rfl
  | cons d ds ih => simp only [subSections, hblock, ih]

theorem schemaSections_textless (fuel : Nat) (program : Program) :
    schemaSections fuel program.textless = schemaSections fuel program := by
  have hschemas (config : Config) : schemas program.textless config = schemas program config :=
    schemasIn_textless program config _
  have hblock (d : SchemaDecl) : schemaBlock fuel program.textless d = schemaBlock fuel program d :=
    rfl
  simp only [schemaSections, hschemas, hblock, subSections_textless]

/-- How two runs end that differ in the text of the entry file: in the same error, or with the same
sections for the schemas. -/
def EndAlike (program program' : Program) :
    Except Stop String × Session → Except Stop String × Session → Prop
  | (.ok text, s), (.ok text', s') => s' = s ∧ ∃ sections,
      text = documentText program sections ∧ text' = documentText program' sections
  | (.error stop, s), (.error stop', s') => s' = s ∧ stop' = stop
  | _, _ => False

theorem EndAlike.exhausted_iff {program program' : Program}
    {result result' : Except Stop String × Session} (h : EndAlike program program' result result') :
    result.1 = .error .exhausted ↔ result'.1 = .error .exhausted := by
  obtain ⟨outcome, s⟩ := result
  obtain ⟨outcome', s'⟩ := result'
  cases outcome with
  | ok text =>
    cases outcome' with
    | ok text' => exact ⟨nofun, nofun⟩
    | error stop' => exact h.elim
  | error stop =>
    cases outcome' with
    | ok text' => exact h.elim
    | error stop' =>
      obtain ⟨-, rfl⟩ := h
      exact Iff.rfl

section Programs

variable (h : env.SameButTexts env') {program program' : Program}
  (hprogram : env.index.program? 0 = some program)
  (hprogram' : env'.index.program? 0 = some program')

include h hprogram hprogram'

theorem renderWithin_sameButTexts (fuel : Nat) (s : Session) :
    EndAlike program program' (renderWithin fuel env s) (renderWithin fuel env' s) := by
  have hentry : entryProgram env s = (.ok program, s) := by rw [run_entryProgram, hprogram]
  have hentry' : entryProgram env' s = (.ok program', s) := by rw [run_entryProgram, hprogram']
  have htextless : program'.textless = program.textless := by
    have hprograms := program?_sameButTexts h
    rw [hprogram, hprogram'] at hprograms
    exact Option.some.inj hprograms
  have hsections : schemaSections fuel program' env' s = schemaSections fuel program env s := by
    rw [← schemaSections_textless fuel program', htextless, schemaSections_textless,
      schemaSections_sameButTexts h]
  rw [show renderWithin fuel env s = _ from Eval.run_bind_ok hentry,
    show renderWithin fuel env' s = _ from Eval.run_bind_ok hentry']
  rcases hrun : schemaSections fuel program env s with ⟨stop | sections, s'⟩
  · rw [Eval.run_bind_error hrun, Eval.run_bind_error (hsections.trans hrun)]
    exact ⟨rfl, rfl⟩
  · rw [Eval.run_bind_ok hrun, Eval.run_bind_ok (hsections.trans hrun)]
    exact ⟨rfl, sections, rfl, rfl⟩

/-- **Two documents that differ in texts only.** Neither has an end, or both end alike. -/
theorem render_sameButTexts (s : Session) :
    (render env s = none ∧ render env' s = none) ∨
      ∃ result result', render env s = some result ∧ render env' s = some result' ∧
        EndAlike program program' result result' := by
  have halike (fuel : Nat) := renderWithin_sameButTexts h hprogram hprogram' fuel s
  by_cases hended : ∃ fuel, (renderWithin fuel env s).1 ≠ .error .exhausted
  · obtain ⟨fuel, hended⟩ := hended
    have hended' := fun hexhausted => hended ((halike fuel).exhausted_iff.mpr hexhausted)
    exact Or.inr ⟨_, _, render_eq_some hended, render_eq_some hended', halike fuel⟩
  · have hexhausted (fuel : Nat) : (renderWithin fuel env s).1 = .error .exhausted := by
      by_contra hne
      exact hended ⟨fuel, hne⟩
    refine Or.inl ⟨?_, ?_⟩
    · by_contra hne
      obtain ⟨result, hrender⟩ := Option.ne_none_iff_exists'.mp hne
      obtain ⟨fuel, rfl, hended⟩ := render_eq_some_iff.mp hrender
      exact hended (hexhausted fuel)
    · by_contra hne
      obtain ⟨result, hrender⟩ := Option.ne_none_iff_exists'.mp hne
      obtain ⟨fuel, rfl, hended⟩ := render_eq_some_iff.mp hrender
      exact hended ((halike fuel).exhausted_iff.mp (hexhausted fuel))

end Programs

/-! ### The section of the indexes -/

/-- What stands in front of the last of several texts does not depend on it. -/
theorem exists_intercalate_concat (separator : String) (texts : List String) :
    ∃ front, ∀ last, separator.intercalate (texts ++ [last]) = front ++ last := by
  cases texts with
  | nil => exact ⟨"", fun last => by simp⟩
  | cons first texts =>
    refine ⟨separator.intercalate (first :: texts) ++ separator, fun last => ?_⟩
    rw [String.intercalate_append_of_ne_nil (List.cons_ne_nil _ _) (List.cons_ne_nil _ _),
      String.intercalate_singleton]

/-- Whether a statement adds an index has nothing to do with texts. -/
theorem isSome_indexBullet? (program program' : Program) (s : Statement) :
    (indexBullet? program' s).isSome = (indexBullet? program s).isSome := by
  unfold indexBullet?
  split
  · split <;> rfl
  · rfl

theorem indexes_eq_nil_iff {program program' : Program} (h : program'.body = program.body) :
    indexes program' = [] ↔ indexes program = [] := by
  have hnone (s : Statement) : indexBullet? program' s = none ↔ indexBullet? program s = none := by
    rw [← Option.not_isSome_iff_eq_none, isSome_indexBullet? program, Option.not_isSome_iff_eq_none]
  simp only [indexes, List.filterMap_eq_nil_iff, h, hnone]

/-- **Documents with the same sections for the schemas are the same exactly if they have the same
section for the indexes.** -/
theorem documentText_inj {program program' : Program} (h : program'.body = program.body)
    (sections : List String) :
    documentText program' sections = documentText program sections ↔
      indexSections program' = indexSections program := by
  refine ⟨fun htext => ?_, fun hindexes => by rw [documentText, hindexes, documentText]⟩
  by_cases hnil : indexes program = []
  · have hnil' := (indexes_eq_nil_iff h).mpr hnil
    simp [indexSections, hnil, hnil']
  · have hnil' := (indexes_eq_nil_iff h).not.mpr hnil
    obtain ⟨front, hfront⟩ := exists_intercalate_concat "\n\n" sections
    simp only [documentText, indexSections, List.isEmpty_iff, if_neg hnil, if_neg hnil', hfront,
      String.append_left_inj, String.append_right_inj] at htext
    simp only [indexSections, List.isEmpty_iff, if_neg hnil, if_neg hnil', htext]

end Document

/-! ### The index -/

/-- A program with another text. -/
def Program.withText (text : String) (p : Program) : Program := { p with source := text }

/-- A module with another text, if it is a script. -/
def SourceModule.withText (text : String) (m : SourceModule) : SourceModule :=
  match m.source with
  | .script program => { m with source := .script (program.withText text) }
  | .json _ => m

namespace ModuleIndex

variable (text : String)

/-- An index with another text for the entry file. -/
def withEntryText (index : ModuleIndex) : ModuleIndex :=
  { index with modules := index.modules.modifyHead (SourceModule.withText text) }

theorem textless_withEntryText (index : ModuleIndex) :
    (index.withEntryText text).textless = index.textless := by
  obtain ⟨modules, links⟩ := index
  cases modules with
  | nil => rfl
  | cons entry modules =>
    obtain ⟨path, source⟩ := entry
    cases source <;> rfl

theorem path_withEntryText (index : ModuleIndex) (m : ModuleId) :
    (index.withEntryText text).path m = index.path m := by
  rw [← path_textless, textless_withEntryText, path_textless]

theorem program?_withEntryText (index : ModuleIndex) :
    (index.withEntryText text).program? 0 = (index.program? 0).map (Program.withText text) := by
  obtain ⟨modules, links⟩ := index
  cases modules with
  | nil => rfl
  | cons entry modules =>
    obtain ⟨path, source⟩ := entry
    cases source <;> rfl

namespace Builder

/-- An index that is being built with another text for the entry file. -/
def withEntryText (b : Builder) : Builder := { b with index := b.index.withEntryText text }

/-- A step in building an index keeps the entry file, and does not look at its text. -/
def IgnoresEntryText (step : Builder → Builder) : Prop :=
  ∀ (b : Builder) (entry : SourceModule), b.index.modules.head? = some entry →
    step (b.withEntryText text) = (step b).withEntryText text ∧
      (step b).index.modules.head? = some entry

namespace IgnoresEntryText

variable {text}

theorem refl : IgnoresEntryText text id := fun _ _ hb => ⟨rfl, hb⟩

theorem comp {step step' : Builder → Builder} (h : IgnoresEntryText text step)
    (h' : IgnoresEntryText text step') : IgnoresEntryText text (step' ∘ step) := by
  intro b entry hb
  obtain ⟨hstep, hentry⟩ := h b entry hb
  obtain ⟨hstep', hentry'⟩ := h' (step b) entry hentry
  exact ⟨by rw [Function.comp_apply, hstep, hstep', Function.comp_apply], hentry'⟩

theorem addLink (importer : ModuleId) (specifier : String) (link : Link) :
    IgnoresEntryText text (·.addLink importer specifier link) := fun _ _ hb => ⟨rfl, hb⟩

theorem addModule (importer : ModuleId) (specifier : String) (path : Path)
    (place : FileSystem.Place) (source : ModuleSource) (requires : List String) :
    IgnoresEntryText text (·.addModule importer specifier path place source requires) := by
  intro b entry hb
  obtain ⟨⟨modules, links⟩, places, queue, log⟩ := b
  cases modules with
  | nil => exact absurd hb nofun
  | cons first modules => exact ⟨rfl, hb⟩

theorem followTo (fs : FileSystem) (importer : ModuleId) (specifier : String) (path : Path)
    (place : FileSystem.Place) :
    IgnoresEntryText text (·.followTo fs importer specifier path place) := by
  intro b
  have hplaces : (b.withEntryText text).places = b.places := rfl
  simp only [Builder.followTo, hplaces]
  split
  next id _ => exact addLink importer specifier (.loaded id) b
  next =>
    split
    next source requires _ => exact addModule importer specifier path place source requires b
    next reason _ => exact addLink importer specifier (.failed reason) b

theorem follow (fs : FileSystem) (importer : ModuleId) (specifier : String) :
    IgnoresEntryText text (Builder.follow fs importer · specifier) := by
  intro b
  have hpath : (b.withEntryText text).index.path importer = b.index.path importer :=
    path_withEntryText text b.index importer
  simp only [Builder.follow, hpath]
  split
  next => exact refl b
  next =>
    split
    next => exact addLink importer specifier (.failed .notFound) b
    next path _ => exact followTo fs importer specifier path _ b

theorem followSpecifiers (fs : FileSystem) (importer : ModuleId) (specifiers : List String) :
    IgnoresEntryText text (specifiers.foldl (Builder.follow fs importer)) := by
  induction specifiers with
  | nil => exact refl
  | cons specifier specifiers ih => exact (follow fs importer specifier).comp ih

theorem followAll (fs : FileSystem) (fuel : Nat) :
    IgnoresEntryText text (Builder.followAll fs fuel) := by
  induction fuel with
  | zero => exact refl
  | succ fuel ih =>
    intro b
    have hqueue : (b.withEntryText text).queue = b.queue := rfl
    simp only [Builder.followAll, hqueue]
    split
    next => exact refl b
    next importer specifiers queue _ =>
      exact (followSpecifiers fs importer specifiers).comp ih { b with queue }

end IgnoresEntryText

end Builder

end ModuleIndex

/-! ### A mark in front of a text -/

/-- A text with a byte order mark in front of it. -/
def withMark (text : String) : String := String.ofList (Text.byteOrderMark :: text.toList)

namespace Text

theorem dropByteOrderMark_withMark (text : String) :
    dropByteOrderMark (withMark text).toList = text.toList := by
  rw [withMark, String.toList_ofList]
  rfl

theorem dropByteOrderMark_of_head? {cs : List Char} (h : cs.head? ≠ some byteOrderMark) :
    dropByteOrderMark cs = cs := by
  cases cs with
  | nil => rfl
  | cons c cs =>
    have hc : (c == byteOrderMark) = false := by simpa using h
    simp [dropByteOrderMark, hc]

/-- A mark takes three bytes. -/
theorem slice?_byteOrderMark (cs : List Char) {lo hi : Nat} (hlo : 3 ≤ lo) (hhi : lo ≤ hi) :
    slice? (byteOrderMark :: cs) lo hi = slice? cs (lo - 3) (hi - 3) := by
  obtain ⟨n, rfl⟩ := Nat.exists_eq_add_of_le' hlo
  have hsize : byteOrderMark.utf8Size = 3 := rfl
  have hdrop : dropBytes (n + 3) (byteOrderMark :: cs) = dropBytes n cs := by
    rw [dropBytes, hsize, if_pos (by omega)]
    congr 1
  have hle : n + 3 - 3 ≤ hi - 3 := by omega
  have hlength : hi - 3 - (n + 3 - 3) = hi - (n + 3) := by omega
  rw [slice?, slice?, if_pos hhi, if_pos hle, hdrop, hlength, Nat.add_sub_cancel]

end Text

/-- A mark is not parsed, but kept in the text of the program. -/
theorem ParsedSource.ofText_withMark {source : String} (path : Path)
    (h : source.toList.head? ≠ some Text.byteOrderMark) :
    ofText (withMark source) path = (ofText source path).map fun parsed =>
      { parsed with program := parsed.program.withText (withMark source) } := by
  simp only [ofText, Text.dropByteOrderMark_withMark, Text.dropByteOrderMark_of_head? h]
  split <;> rfl

theorem ParsedSource.source_of_ofText {source : String} {path : Path} {parsed : ParsedSource}
    (h : ofText source path = .ok parsed) : parsed.program.source = source := by
  simp only [ofText] at h
  split at h
  · obtain rfl := Except.ok.inj h
    rfl
  · exact absurd h nofun
  · exact absurd h nofun

/-- **A mark changes nothing in an index but the text of the entry file.** -/
theorem ModuleIndex.ofText_withMark (fs : FileSystem) {source : String} (path : Path) (log : Log)
    (h : source.toList.head? ≠ some Text.byteOrderMark) :
    (∃ e, ofText fs source path log = .error e ∧ ofText fs (withMark source) path log = .error e) ∨
      ∃ index log' program, ofText fs source path log = .ok (index, log') ∧
        ofText fs (withMark source) path log =
          .ok (index.withEntryText (withMark source), log') ∧
        index.program? 0 = some program ∧ program.source = source := by
  have hmarked := ParsedSource.ofText_withMark path h
  cases hparsed : ParsedSource.ofText source path with
  | error failure =>
    rw [hparsed] at hmarked
    exact Or.inl ⟨.parse failure, ofText_of_failure hparsed, ofText_of_failure hmarked⟩
  | ok parsed =>
    rw [hparsed] at hmarked
    have hfollow : Builder.IgnoresEntryText (withMark source)
      (Builder.followAll fs (fs.nodes.length + 1)) := .followAll fs _
    obtain ⟨hindex, hentry⟩ := hfollow (.start fs path parsed log) _ rfl
    have hmarked : ofText fs (withMark source) path log = _ := ofText_of_parsed hmarked
    have hstart : Builder.start fs path
        { parsed with program := parsed.program.withText (withMark source) } log =
          (Builder.start fs path parsed log).withEntryText (withMark source) := rfl
    rw [hstart, hindex] at hmarked
    refine Or.inr ⟨_, _, parsed.program.reattach, ofText_of_parsed hparsed, hmarked, ?_,
      ParsedSource.source_of_ofText hparsed⟩
    rw [program?, module?, ← List.head?_eq_getElem?, hentry]
    rfl

namespace Document

/-- **A byte order mark shows in the section of the indexes and nowhere else.** With a mark in front
of the entry file there is the same error instead of an index, or the same index with the same
reports, the text of the entry file apart. Over it, rendering has no end, or stops with the same
error, or gives a document, exactly if it does so without the mark; and the two documents are the
same exactly if their sections of the indexes are. In that section, every argument is shown by the
text that stands three bytes in front of it. -/
theorem mark_shows_only_in_indexes (fs : FileSystem) (path : Path) (source : String)
    (h : source.toList.head? ≠ some Text.byteOrderMark) (config : Config) (log : Log) :
    (∃ e, ModuleIndex.ofText fs source path log = .error e ∧
      ModuleIndex.ofText fs (withMark source) path log = .error e) ∨
    ∃ index index' log' program program',
      ModuleIndex.ofText fs source path log = .ok (index, log') ∧
      ModuleIndex.ofText fs (withMark source) path log = .ok (index', log') ∧
      index' = index.withEntryText (withMark source) ∧
      index.program? 0 = some program ∧ index'.program? 0 = some program' ∧
      (∀ s, (render ⟨index, config⟩ s = none ∧ render ⟨index', config⟩ s = none) ∨
        (∃ stop s', render ⟨index, config⟩ s = some (.error stop, s') ∧
          render ⟨index', config⟩ s = some (.error stop, s')) ∨
        ∃ text text' s', render ⟨index, config⟩ s = some (.ok text, s') ∧
          render ⟨index', config⟩ s = some (.ok text', s') ∧
          (text' = text ↔ indexSections program' = indexSections program)) ∧
      program'.body = program.body ∧
      ∀ loc : Loc, 3 ≤ loc.lo → loc.lo ≤ loc.hi →
        program'.text loc = program.textBetween (loc.lo - 3) (loc.hi - 3) := by
  rcases ModuleIndex.ofText_withMark fs path log h with
    herror | ⟨index, log', program, hindex, hindex', hprogram, hsource⟩
  · exact Or.inl herror
  have hprogram' : (index.withEntryText (withMark source)).program? 0 =
      some (program.withText (withMark source)) := by
    rw [ModuleIndex.program?_withEntryText, hprogram]
    rfl
  have hsame : Environment.SameButTexts ⟨index, config⟩
      ⟨index.withEntryText (withMark source), config⟩ :=
    ⟨ModuleIndex.textless_withEntryText _ index, rfl⟩
  refine Or.inr ⟨index, _, log', program, _, hindex, hindex', rfl, hprogram, hprogram', ?_, rfl, ?_⟩
  · intro s
    rcases render_sameButTexts hsame hprogram hprogram' s with
      hnone | ⟨⟨outcome, s'⟩, ⟨outcome', s''⟩, hrender, hrender', halike⟩
    · exact Or.inl hnone
    cases outcome with
    | error stop =>
      cases outcome' with
      | error stop' =>
        obtain ⟨rfl, rfl⟩ := halike
        exact Or.inr (Or.inl ⟨_, _, hrender, hrender'⟩)
      | ok text' => exact halike.elim
    | ok text =>
      cases outcome' with
      | error stop' => exact halike.elim
      | ok text' =>
        obtain ⟨rfl, sections, rfl, rfl⟩ := halike
        have hbody : (program.withText (withMark source)).body = program.body := rfl
        exact Or.inr (Or.inr ⟨_, _, _, hrender, hrender', documentText_inj hbody sections⟩)
  · intro loc hlo hhi
    rw [Program.text, Program.textBetween, Program.textBetween, hsource]
    have htext : (program.withText (withMark source)).source.toList =
        Text.byteOrderMark :: source.toList := String.toList_ofList
    rw [htext, Text.slice?_byteOrderMark _ hlo hhi]

/-- **A mark is not invisible.** With one in front of it, a file that adds an index has another
document. -/
theorem mark_is_not_invisible :
    ∃ source : String, source.toList.head? ≠ some Text.byteOrderMark ∧
      ∃ index index' log log' text text' s s',
        ModuleIndex.ofText (.empty []) source "model.js" (.empty false) = .ok (index, log) ∧
        ModuleIndex.ofText (.empty []) (withMark source) "model.js" (.empty false) =
          .ok (index', log') ∧
        render ⟨index, .standard⟩ (Session.start (.empty false)) = some (.ok text, s) ∧
        render ⟨index', .standard⟩ (Session.start (.empty false)) = some (.ok text', s') ∧
        text' ≠ text := by
  let source := "const S = new Schema(\x7b\x7d);\nS.index(\x7b a: 1 \x7d);\n"
  have hplain : ((documentOf? 1 source).any fun found =>
      found.2 == "# S\n\n## Indexes\n- \x60\x7b a: 1 \x7d\x60\n") = true := by decide +kernel
  have hmarked : ((documentOf? 1 (withMark source)).any fun found =>
      found.2 == "# S\n\n## Indexes\n- \x60ex(\x7b a: \x60\n") = true := by decide +kernel
  obtain ⟨⟨index, text⟩, hfound, htext⟩ := (Option.any_eq_true _ _).mp hplain
  obtain ⟨⟨index', text'⟩, hfound', htext'⟩ := (Option.any_eq_true _ _).mp hmarked
  obtain ⟨⟨log, hindex⟩, s, hrender⟩ := render_of_documentOf? hfound
  obtain ⟨⟨log', hindex'⟩, s', hrender'⟩ := render_of_documentOf? hfound'
  refine ⟨source, by decide, index, index', log, log', text, text', s, s', hindex, hindex', hrender,
    hrender', ?_⟩
  obtain rfl : text = _ := eq_of_beq htext
  obtain rfl : text' = _ := eq_of_beq htext'
  decide

/-- A file without indexes has the same document with a mark in front of it. -/
theorem mark_without_indexes :
    let source := "const S = new Schema(\x7b a: String \x7d);\n"
    source.toList.head? ≠ some Text.byteOrderMark ∧
      ∃ index index' log log' text s s',
        ModuleIndex.ofText (.empty []) source "model.js" (.empty false) = .ok (index, log) ∧
        ModuleIndex.ofText (.empty []) (withMark source) "model.js" (.empty false) =
          .ok (index', log') ∧
        render ⟨index, .standard⟩ (Session.start (.empty false)) = some (.ok text, s) ∧
        render ⟨index', .standard⟩ (Session.start (.empty false)) = some (.ok text, s') := by
  intro source
  have hsource : source.toList.head? ≠ some Text.byteOrderMark := by decide
  have hplain : ((documentOf? 1 source).any fun found =>
      (found.1.program? 0).any fun program => (indexes program).isEmpty) = true := by decide +kernel
  obtain ⟨⟨index, text⟩, hfound, hnone⟩ := (Option.any_eq_true _ _).mp hplain
  obtain ⟨⟨log, hindex⟩, s, hrender⟩ := render_of_documentOf? hfound
  refine ⟨hsource, ?_⟩
  rcases mark_shows_only_in_indexes (.empty []) "model.js" source hsource .standard (.empty false) with
    ⟨e, herror, -⟩ |
      ⟨found, index', log', program, program', hok, hok', -, hprogram, -, hdocuments, hbody, -⟩
  · exact absurd (hindex.symm.trans herror) nofun
  obtain ⟨rfl, rfl⟩ := Prod.mk.inj (Except.ok.inj (hindex.symm.trans hok))
  have hsections : indexSections program' = indexSections program := by
    obtain ⟨_, hprogram', hempty⟩ := (Option.any_eq_true _ _).mp hnone
    obtain rfl := Option.some.inj (hprogram.symm.trans hprogram')
    have hnil := List.isEmpty_iff.mp hempty
    simp [indexSections, hnil, (indexes_eq_nil_iff hbody).mpr hnil]
  rcases hdocuments (Session.start (.empty false)) with
    ⟨habsurd, -⟩ | ⟨stop, s', habsurd, -⟩ | ⟨text', marked, s', hplain, hmarked, hiff⟩
  · exact absurd (hrender.symm.trans habsurd) nofun
  · exact absurd (Option.some.inj (hrender.symm.trans habsurd)) nofun
  · rw [hiff.mpr hsections] at hmarked
    exact ⟨index, index', log, log, text', s', s', hok, hok', hplain, hmarked⟩

end Document

end SchemaDoc
