import SchemaDoc.Script.Grammar.Basic

/-!
# What parsers ensure

A small logic for parsers. `p.Ensures c s Q` says that whatever `p` reads from the state `s`, if it
reads anything, has the property `Q`, which may also speak of the state behind it. Nothing is said
about failures. There is a rule for each way to put parsers together, and the rules for loops are
about invariants.

That a parser never goes back is part of its type, so every rule that passes on to a later state
says that it is a later one. Where a token is taken the rules say a bit more: the later state is past
the end of that token.
-/

namespace SchemaDoc.Script

namespace State

/-- What it means that a state is at or before another one. -/
@[grind =]
theorem le_iff {s t : State} : s ≤ t ↔ s.last ≤ t.last ∧ s.token.lo ≤ t.token.lo := Iff.rfl

@[simp, grind =]
theorem last_advanced (c : Context) (s : State) : (s.advanced c).last = s.token.hi := rfl

grind_pattern State.last_le => State.last self
grind_pattern State.last_le => State.token self

end State

grind_pattern Token.lo_le_hi => Token.hi t

namespace Parser

variable {α β σ : Type} {c : Context} {s : State} {p : Parser α} {f : α → Parser β}
  {P Q : α → State → Prop} {R : β → State → Prop}

/-- Whatever a parser reads from a state has a property. -/
def Ensures (p : Parser α) (c : Context) (s : State) (Q : α → State → Prop) : Prop :=
  ∀ a s', p.run c s = .ok a s' → Q a s'

namespace Ensures

/-! ### Parsers put together -/

theorem pure {a : α} (h : Q a s) : (Pure.pure a : Parser α).Ensures c s Q := by
  rintro _ _ ⟨⟩
  exact h

theorem bind (hp : p.Ensures c s P)
    (hf : ∀ a s', s ≤ s' → P a s' → (f a).Ensures c s' R) : (p >>= f).Ensures c s R := by
  intro b s'' hrun
  change Parser.run (Parser.bind p f) c s = _ at hrun
  simp only [Parser.bind] at hrun
  have hforward := p.forward c s
  split at hrun
  · next a s' hok =>
    rw [hok] at hforward
    exact hf a s' hforward (hp a s' hok) b s'' hrun
  · cases hrun

theorem mono (hp : p.Ensures c s P) (h : ∀ a s', s ≤ s' → P a s' → Q a s') :
    p.Ensures c s Q := by
  intro a s' hrun
  have hforward := p.forward c s
  rw [hrun] at hforward
  exact h a s' hforward (hp a s' hrun)

theorem map {k : α → β} (hp : p.Ensures c s P) (h : ∀ a s', s ≤ s' → P a s' → R (k a) s') :
    (k <$> p).Ensures c s R :=
  bind hp fun a s' hs ha => pure (h a s' hs ha)

/-- Nothing need be known of a parser but that it does not go back. -/
theorem skip (hf : ∀ a s', s ≤ s' → (f a).Ensures c s' R) : (p >>= f).Ensures c s R :=
  bind (P := fun _ _ => True) (fun _ _ _ => trivial) fun a s' hs _ => hf a s' hs

/-- What is only looked at is known. -/
theorem look {k : Context → State → α} (h : (f (k c s)).Ensures c s R) :
    (Parser.look k >>= f).Ensures c s R := by
  refine bind (P := fun a s' => a = k c s ∧ s' = s) ?_ ?_
  · rintro _ _ ⟨⟩
    exact ⟨rfl, rfl⟩
  · rintro _ _ - ⟨rfl, rfl⟩
    exact h

theorem ite {b : Prop} [Decidable b] {p q : Parser α} (hp : b → p.Ensures c s Q)
    (hq : ¬b → q.Ensures c s Q) : (if b then p else q).Ensures c s Q := by
  split
  · next hb => exact hp hb
  · next hb => exact hq hb

/-- In another context, whichever it is. -/
theorem within {change : Context → Context} (h : ∀ c', p.Ensures c' s Q) :
    (withReader change p).Ensures c s Q := h (change c)

/-! ### Failure -/

theorem failAt {span : Span} : (Parser.failAt span : Parser α).Ensures c s Q := by
  intro a s' hrun
  simp only [Parser.failAt] at hrun
  split at hrun <;> cases hrun

theorem fail : (Parser.fail : Parser α).Ensures c s Q := look failAt

/-- Nothing is read behind a failure. -/
theorem failedAt {span : Span} : (Parser.failAt span >>= f).Ensures c s R :=
  bind (P := fun _ _ => False) failAt nofun

theorem failed : (Parser.fail >>= f).Ensures c s R :=
  bind (P := fun _ _ => False) fail nofun

theorem unfinished : (Parser.unfinished : Parser α).Ensures c s Q := by
  intro a s' hrun
  cases hrun

theorem exhausted : (Parser.exhausted : Parser α).Ensures c s Q := by
  intro a s' hrun
  cases hrun

/-- Behind a reading that may be at fault, where no token is taken. -/
theorem ofExcept {r : Except Span α} (h : ∀ a, r = .ok a → (f a).Ensures c s R) :
    (Parser.ofExcept r >>= f).Ensures c s R := by
  refine bind (P := fun a s' => s = s' ∧ r = .ok a) ?_ ?_
  · unfold Parser.ofExcept
    split
    · exact pure ⟨rfl, rfl⟩
    · exact failAt
  · rintro a _ - ⟨rfl, ha⟩
    exact h a ha

theorem attempt {p : Parser (Option α)} (hp : p.Ensures c s fun o s' => ∀ a ∈ o, Q a s') :
    (Parser.attempt p).Ensures c s fun o s' => ∀ a ∈ o, Q a s' := by
  intro o s' hrun
  simp only [Parser.attempt] at hrun
  split at hrun
  · next a s'' hok =>
    cases hrun
    exact hp _ _ hok
  · cases hrun
    exact fun _ ha => by cases ha
  · cases hrun
    exact fun _ ha => by cases ha
  · cases hrun

theorem recover (hp : p.Ensures c s Q) :
    (Parser.recover p).Ensures c s fun r s' => ∀ a, r = .ok a → Q a s' := by
  intro r s' hrun
  simp only [Parser.recover] at hrun
  split at hrun
  · next hok =>
    cases hrun
    rintro _ ⟨⟩
    exact hp _ _ hok
  · cases hrun
    exact fun _ ha => by cases ha
  · cases hrun

/-! ### Tokens -/

/-- Behind a token that is taken. -/
theorem advance {f : Unit → Parser β}
    (h : ∀ s', s ≤ s' → s.token.hi ≤ s'.last → (f ()).Ensures c s' R) :
    (Parser.advance >>= f).Ensures c s R := by
  refine bind (P := fun _ s' => s.token.hi ≤ s'.last) ?_ fun _ s' => h s'
  rintro _ _ ⟨⟩
  exact Nat.le_refl _

theorem moveTo {place : Cursor} {f : Unit → Parser β}
    (h : ∀ s', s ≤ s' → s.token.lo ≤ place.offset → s'.last = place.offset → (f ()).Ensures c s' R) :
    (Parser.moveTo place >>= f).Ensures c s R := by
  refine bind (P := fun _ s' => s.token.lo ≤ place.offset ∧ s'.last = place.offset) ?_
    fun _ s' hs hplace => h s' hs hplace.1 hplace.2
  intro _ s' hrun
  simp only [Parser.moveTo] at hrun
  split at hrun
  · next hplace =>
    cases hrun
    exact ⟨hplace, rfl⟩
  · cases hrun

/-- Where a mark or a word may come next: behind it if it does, and here if it does not. -/
theorem acceptIf {k : Context → State → Bool} {p q : Parser β}
    (hp : ∀ s', s ≤ s' → s.token.hi ≤ s'.last → p.Ensures c s' R) (hq : q.Ensures c s R) :
    ((do if ← Parser.look k then Parser.advance; return true else return false) >>=
      fun b => if b = true then p else q).Ensures c s R := by
  refine bind (P := fun b s' => b = true ∧ s.token.hi ≤ s'.last ∨ b = false ∧ s' = s) ?_ ?_
  · refine look (ite (fun _ => ?_) fun _ => pure (.inr ⟨rfl, rfl⟩))
    exact advance fun s' _ hlast => pure (.inl ⟨rfl, hlast⟩)
  · rintro _ s' hs (⟨rfl, hlast⟩ | ⟨rfl, rfl⟩)
    · exact hp s' hs hlast
    · exact hq

theorem accept {mark : Punct} {p q : Parser β}
    (hp : ∀ s', s ≤ s' → s.token.hi ≤ s'.last → p.Ensures c s' R) (hq : q.Ensures c s R) :
    (Parser.accept mark >>= fun b => if b = true then p else q).Ensures c s R :=
  acceptIf hp hq

theorem acceptWord {w : String} {p q : Parser β}
    (hp : ∀ s', s ≤ s' → s.token.hi ≤ s'.last → p.Ensures c s' R) (hq : q.Ensures c s R) :
    (Parser.acceptWord w >>= fun b => if b = true then p else q).Ensures c s R :=
  acceptIf hp hq

/-- Behind a mark that has to come next. -/
theorem expect {mark : Punct} {f : Unit → Parser β}
    (h : ∀ s', s ≤ s' → s.token.hi ≤ s'.last → (f ()).Ensures c s' R) :
    (Parser.expect mark >>= f).Ensures c s R := by
  refine bind (P := fun _ s' => s.token.hi ≤ s'.last) ?_ fun _ s' => h s'
  refine look (ite (fun _ => ?_) fun _ => fail)
  rintro _ _ ⟨⟩
  exact Nat.le_refl _

/-- Behind the name of something that is declared. -/
theorem name {f : String → Parser β}
    (h : ∀ w s', s ≤ s' → s.token.hi ≤ s'.last → (f w).Ensures c s' R) :
    (Parser.name >>= f).Ensures c s R := by
  refine bind (P := fun _ s' => s.token.hi ≤ s'.last) ?_ h
  refine look ?_
  split
  · refine advance fun s' _ hlast => look ?_
    exact ite (fun _ => failedAt) fun _ => pure hlast
  · exact fail

/-! ### Loops -/

/-- What every turn of a loop keeps and its last turn turns into a result. -/
theorem iterate {init : σ} {step : σ → Parser (σ ⊕ β)} (I : σ → State → Prop) (hinit : I init s)
    (hstep : ∀ x s', s ≤ s' → I x s' →
      (step x).Ensures c s' fun r s'' => r.elim (I · s'') (R · s'')) :
    (Parser.iterate init step).Ensures c s R := by
  have hloop : ∀ n x s', s ≤ s' → I x s' → (loop step n x).Ensures c s' R := by
    intro n
    induction n with
    | zero =>
      intro x s' _ _ b s'' hrun
      cases hrun
    | succ n ih =>
      intro x s' hs hx
      refine bind (hstep x s' hs hx) fun r s'' hs' hr => ?_
      cases r with
      | inl x' => exact ih x' s'' (State.le_trans hs hs') hr
      | inr b => exact pure hr
  exact look (hloop _ _ s s.le_refl hinit)

/-- A property of the items that are read so far, if later items leave it alone. -/
theorem commaList {close : Punct} {item : Parser α} (I : List α → State → Prop) (hinit : I [] s)
    (hkeep : ∀ as s' s'', s' ≤ s'' → I as s' → I as s'')
    (hitem : ∀ as s', s ≤ s' → I as s' → item.Ensures c s' fun a s'' => I (as ++ [a]) s'') :
    (Parser.commaList close item).Ensures c s fun as s' =>
      ∃ s'', s'' ≤ s' ∧ s''.token.hi ≤ s'.last ∧ I as s'' := by
  refine iterate (fun done s' => I done.reverse s') hinit fun done s' hs hdone => ?_
  refine accept (fun s₁ hs₁ hlast => pure ⟨s', hs₁, hlast, hdone⟩) ?_
  refine bind (hitem _ s' hs hdone) fun a s₁ hs₁ ha => ?_
  rw [← List.reverse_cons] at ha
  refine accept (fun s₂ hs₂ _ => pure (hkeep _ _ _ hs₂ ha)) ?_
  exact expect fun s₂ hs₂ hlast => pure ⟨s₁, hs₂, hlast, ha⟩

end Ensures

/-! ### Tokens that are taken in any case -/

/-- A parser takes the next token, even if it fails later on. -/
def Takes (p : Parser α) (c : Context) (s : State) : Prop :=
  s.token.hi ≤ (p.run c s).state.last

theorem run_bind_ok {a : α} {s' : State} (h : p.run c s = .ok a s') :
    (p >>= f).run c s = (f a).run c s' := by
  change (Parser.bind p f).run c s = _
  simp only [Parser.bind, h]

theorem takes_acceptWord {w : String} (h : s.token.kind = .name w false) :
    (acceptWord w).Takes c s := by
  have htest : (isWord w).run c s = .ok true s := by simp [isWord, look, h]
  have hrun : (acceptWord w).run c s = .ok true (s.advanced c) := by
    unfold acceptWord
    rw [run_bind_ok htest, if_pos rfl]
    rfl
  rw [Takes, hrun]
  exact Nat.le_refl _

theorem Takes.bind (hp : p.Takes c s) : (p >>= f).Takes c s := by
  change s.token.hi ≤ ((Parser.bind p f).run c s).state.last
  simp only [Parser.bind]
  unfold Takes at hp
  split
  · next a s' hrun =>
    rw [hrun] at hp
    exact Nat.le_trans hp ((f a).forward c s').1
  · next hrun =>
    rw [hrun] at hp
    exact hp

theorem Takes.recover (hp : p.Takes c s) :
    (Parser.recover p).Ensures c s fun _ s' => s.token.hi ≤ s'.last := by
  intro r s' hrun
  simp only [Parser.recover] at hrun
  unfold Takes at hp
  split at hrun
  · next hok =>
    rw [hok] at hp
    cases hrun
    exact hp
  · next herror =>
    rw [herror] at hp
    cases hrun
    exact hp
  · cases hrun

end Parser

end SchemaDoc.Script
