import SchemaDoc.Proofs.Termination

/-!
# Where errors come from

Whatever a file contains, there is only one way for evaluation to stop: the value of a module is
needed that could not be loaded. The error then names the module that asked for it, however far the
request was from there, and the failure that the index has kept since it was built. Over an index
without failures, everything has a value.

An error names its module by the path, and the index of a file only has links that start at one of
its modules.
-/

namespace SchemaDoc

open Evaluate

/-! ### Links of an index -/

namespace ModuleIndex

/-- An index whose links start at its modules. -/
def LinksIndexed (index : ModuleIndex) : Prop :=
  ∀ link ∈ index.links, link.1.1 < index.modules.length

instance (index : ModuleIndex) : Decidable index.LinksIndexed :=
  inferInstanceAs (Decidable (∀ link ∈ index.links, link.1.1 < index.modules.length))

theorem LinksIndexed.module?_isSome {index : ModuleIndex} (h : index.LinksIndexed) {m : ModuleId}
    {specifier : String} {link : Link} (hlink : index.link? m specifier = some link) :
    ∃ importer, index.module? m = some importer := by
  obtain ⟨found, hfound, -⟩ := Option.map_eq_some_iff.mp hlink
  have hkey : found.1 = (m, specifier) := by simpa using List.find?_some hfound
  have hm := h found (List.mem_of_find?_eq_some hfound)
  rw [hkey] at hm
  exact ⟨_, List.getElem?_eq_getElem hm⟩

namespace Builder

/-- What is kept while an index is built: links and the queue only name modules that are there. -/
structure Indexed (b : Builder) : Prop where
  links : b.index.LinksIndexed
  queue : ∀ waiting ∈ b.queue, waiting.1 < b.index.modules.length

variable {b : Builder} {importer : ModuleId} {fs : FileSystem}

theorem Indexed.addLink (hb : b.Indexed) (hi : importer < b.index.modules.length)
    (specifier : String) (link : Link) : (b.addLink importer specifier link).Indexed where
  links l hl := by
    rcases List.mem_append.mp hl with hl | hl
    · exact hb.links l hl
    · obtain rfl := List.mem_singleton.mp hl
      exact hi
  queue := hb.queue

/-- One step of following, which never forgets a module. -/
structure Grows (b b' : Builder) : Prop where
  indexed : b'.Indexed
  length_le : b.index.modules.length ≤ b'.index.modules.length

theorem Indexed.grows (hb : b.Indexed) : b.Grows b := ⟨hb, Nat.le_refl _⟩

theorem Grows.trans {b' b'' : Builder} (h : b.Grows b') (h' : b'.Grows b'') : b.Grows b'' :=
  ⟨h'.indexed, Nat.le_trans h.length_le h'.length_le⟩

theorem Indexed.addModule (hb : b.Indexed) (hi : importer < b.index.modules.length)
    (specifier : String) (path : Path) (place : FileSystem.Place) (source : ModuleSource)
    (requires : List String) :
    b.Grows (b.addModule importer specifier path place source requires) := by
  have hlength : b.index.modules.length ≤
      (b.index.modules ++ [({ path, source } : SourceModule)]).length := by simp
  unfold ModuleIndex.Builder.addModule
  refine ⟨Indexed.addLink ⟨?_, ?_⟩ ?_ _ _, hlength⟩
  · exact fun l hl => Nat.lt_of_lt_of_le (hb.links l hl) hlength
  · intro waiting hw
    rcases List.mem_append.mp hw with hw | hw
    · exact Nat.lt_of_lt_of_le (hb.queue waiting hw) hlength
    · obtain rfl := List.mem_singleton.mp hw
      simp
  · exact Nat.lt_of_lt_of_le hi hlength

theorem Indexed.followTo (hb : b.Indexed) (hi : importer < b.index.modules.length)
    (specifier : String) (path : Path) (place : FileSystem.Place) :
    b.Grows (followTo fs b importer specifier path place) := by
  unfold ModuleIndex.Builder.followTo
  split
  · exact ⟨hb.addLink hi _ _, Nat.le_refl _⟩
  · split
    · exact hb.addModule hi _ _ _ _ _
    · exact ⟨hb.addLink hi _ _, Nat.le_refl _⟩

theorem Indexed.follow (hb : b.Indexed) (hi : importer < b.index.modules.length)
    (specifier : String) : b.Grows (follow fs importer b specifier) := by
  unfold ModuleIndex.Builder.follow
  split
  · exact hb.grows
  · split
    · exact ⟨hb.addLink hi _ _, Nat.le_refl _⟩
    · exact hb.followTo hi _ _ _

theorem Indexed.followSpecifiers (hb : b.Indexed) (hi : importer < b.index.modules.length)
    (specifiers : List String) :
    b.Grows (specifiers.foldl (ModuleIndex.Builder.follow fs importer) b) := by
  induction specifiers generalizing b with
  | nil => exact hb.grows
  | cons specifier specifiers ih =>
    have hstep : b.Grows (ModuleIndex.Builder.follow fs importer b specifier) :=
      hb.follow hi specifier
    exact hstep.trans (ih hstep.indexed (Nat.lt_of_lt_of_le hi hstep.length_le))

theorem Indexed.followAll (hb : b.Indexed) (fuel : Nat) : (followAll fs fuel b).Indexed := by
  induction fuel generalizing b with
  | zero => exact hb
  | succ fuel ih =>
    unfold ModuleIndex.Builder.followAll
    split
    · exact hb
    next importer specifiers queue hqueue =>
      -- The importer was in the queue, so it is a module; following only adds modules.
      have hrest : Indexed { b with queue } :=
        ⟨hb.links, fun waiting hw => hb.queue waiting (hqueue ▸ List.mem_cons_of_mem _ hw)⟩
      have hi : importer < b.index.modules.length :=
        hb.queue _ (hqueue ▸ List.mem_cons_self)
      exact ih (hrest.followSpecifiers hi specifiers).indexed

end Builder

/-- **The links of a file's index start at its modules.** -/
theorem ofText_linksIndexed {fs : FileSystem} {text : String} {path : Path} {log log' : Log}
    {index : ModuleIndex} (h : ofText fs text path log = .ok (index, log')) :
    index.LinksIndexed := by
  unfold ofText at h
  split at h
  · exact nomatch h
  next parsed _ =>
    obtain ⟨rfl, -⟩ := Prod.ext_iff.mp (Except.ok.inj h)
    refine (Builder.Indexed.followAll ⟨fun link hlink => ?_, fun waiting hw => ?_⟩ _).links
    · exact absurd hlink List.not_mem_nil
    · obtain rfl := List.mem_singleton.mp hw
      exact Nat.one_pos

theorem load_linksIndexed {fs : FileSystem} {path : Path} {log log' : Log} {index : ModuleIndex}
    (h : load fs path log = .ok (index, log')) : index.LinksIndexed := by
  unfold load at h
  split at h
  · exact nomatch h
  · exact ofText_linksIndexed h

end ModuleIndex

/-! ### Errors -/

/-- A stop that is an error about a module of the index, and about a failure that the index has kept
for one of its specifiers. -/
def ComesFromFailedLink (index : ModuleIndex) (stop : Stop) : Prop :=
  ∃ m specifier reason, index.link? m specifier = some (.failed reason) ∧
    stop = .error (.moduleLoad specifier (index.path m) reason)

/-- **The logic of errors**: evaluation stops at a bound or because of a failed link. -/
def stopsAtFailedLink (env : Environment) : Logic Session Session env where
  Own _ := True
  Holds _ x _ s _ := ∀ stop, (x env s).1 = .error stop →
    stop = .exhausted ∨ ComesFromFailedLink env.index stop
  pure _ _ h := nomatch h
  bind := by
    intro α β k x y f g s t hx hf stop hstop
    rcases Eval.run_bind_cases x f env s with ⟨a, s', h, hrun⟩ | ⟨e, s', h, hrun⟩
    · rw [hrun] at hstop
      exact hf a s' s' stop hstop
    · rw [hrun] at hstop
      exact hx stop (by rw [h]; simpa using hstop)
  lower hx := hx
  index _ _ hx := hx
  config hx := hx
  asks _ hx := hx
  fail {_ _ m specifier reason _ _} hlink stop hstop :=
    Or.inr ⟨m, specifier, reason, hlink, (Except.error.inj hstop).symm⟩
  warn _ _ h := nomatch h
  newScope {_ _ _ _ _ _ t} hf := hf _ _ t trivial
  bindName _ _ _ _ h := nomatch h
  countCall _ _ h := nomatch h
  calling {_ _ _ _ _ t} _ hx := hx _ t
  resolving {_ _ _ _ _ _ _ t} _ hintroduced hnot := Classical.byCases hintroduced hnot _ t
  exporting := by
    intro k m x y s t _ _ hindexed hnot stop hstop
    rw [Eval.remember_fst] at hstop
    exact Classical.byCases hindexed hnot _ t stop hstop

theorem stopsAtFailedLink_holds {α : Type} {env : Environment} {k : Nat} {x y : Eval α}
    {s t : Session} : (stopsAtFailedLink env).Holds k x y s t ↔
      ∀ stop, (x env s).1 = .error stop →
        stop = .exhausted ∨ ComesFromFailedLink env.index stop := Iff.rfl

theorem request_stop {env : Environment} {r : Request} {s : Session} {stop : Stop}
    (h : (r.run env s).1 = .error stop) : ComesFromFailedLink env.index stop := by
  have hr := Logic.request (L := stopsAtFailedLink env)
    (fun _ _ => stopsAtFailedLink_holds.mpr fun _ h => Or.inl (Except.error.inj h).symm) r s s
  -- The bound is no reason to stop, since it is never reached.
  refine (stopsAtFailedLink_holds.mp hr stop h).resolve_left fun hexhausted => ?_
  exact (request_ends env r s).1 (hexhausted ▸ h)

/-- **Where errors come from.** From every session, the only way for a request to fail is an error
about a module that could not be loaded: it names a module of the index by its path, and a specifier
in it together with the failure that the index has kept for it. So over an index without failures
every request gives a value, whatever cannot be resolved, leads back to itself or exceeds a limit. -/
theorem errors_come_from_failed_links (env : Environment) (hindex : env.index.LinksIndexed)
    (r : Request) (s : Session) :
    (∀ stop, (r.run env s).1 = .error stop →
      ∃ m importer specifier reason, env.index.module? m = some importer ∧
        env.index.link? m specifier = some (.failed reason) ∧
        stop = .error (.moduleLoad specifier importer.path reason)) ∧
    ((∀ m specifier reason, env.index.link? m specifier ≠ some (.failed reason)) →
      ∃ value, (r.run env s).1 = .ok value) := by
  constructor
  · intro stop hstop
    obtain ⟨m, specifier, reason, hlink, rfl⟩ := request_stop hstop
    obtain ⟨importer, hm⟩ := hindex.module?_isSome hlink
    refine ⟨m, importer, specifier, reason, hm, hlink, ?_⟩
    rw [ModuleIndex.path, hm]
    rfl
  · intro hnone
    cases h : (r.run env s).1 with
    | ok value => exact ⟨value, rfl⟩
    | error stop =>
      obtain ⟨m, specifier, reason, hlink, -⟩ := request_stop h
      exact absurd hlink (hnone m specifier reason)

/-- A name that is bound to a file that was not found. -/
theorem error_of_missing_file :
    let loc : Loc := ⟨0, 0, 1, 1⟩
    let reference : Expr := .call loc false (.ident loc "require") [.lit loc (.string "./missing")]
    let statement : Statement := ⟨.declare false [.mk (.ident "h") (some reference)], loc, .none⟩
    let entry : SourceModule := ⟨"model.js", .script ⟨"", [statement]⟩⟩
    let env : Environment := ⟨⟨[entry], [((0, "./missing"), .failed .notFound)]⟩, .standard⟩
    let stop : Stop := .error (.moduleLoad "./missing" "model.js" .notFound)
    env.index.LinksIndexed ∧
      ((Request.lookup 0 "h" none).run env (Session.start (.empty false))).1 = .error stop ∧
      ∃ m importer specifier reason, env.index.module? m = some importer ∧
        env.index.link? m specifier = some (.failed reason) ∧
        stop = .error (.moduleLoad specifier importer.path reason) := by
  intro loc reference statement entry env stop
  have hindex : env.index.LinksIndexed := by decide
  have hstop : ((Request.lookup 0 "h" none).run env (Session.start (.empty false))).1 =
      .error stop := rfl
  exact ⟨hindex, hstop, (errors_come_from_failed_links env hindex _ _).1 stop hstop⟩

end SchemaDoc
