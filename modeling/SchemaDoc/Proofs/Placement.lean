import SchemaDoc.Proofs.WellFormed

/-!
# Where the comments of a literal go

A comment that starts in a literal goes by where it starts: in front of the first entry it leads that
entry, between two entries it leads the second one, and behind the last entry it trails that entry if
it starts on the line where the entry ends (`Goes`). The other comments are passed over: those
outside of the literal, those inside an entry, and those behind the last entry on another line
(`PassedOver`).

The gaps of a literal are half open, so that neighbouring ones neither overlap nor leave out a place
at their ends. So a comment goes to exactly one list of comments or is passed over
(`Goes.unique`, `goes_or_passedOver`), and attaching finds that list: each list has the comments that
go to it, in the order of the text (`Layout.comments_attach`).
-/

namespace SchemaDoc

/-! ### The lists of comments of a literal -/

/-- One of the two lists of comments of an entry, which is given by its index. -/
inductive CommentList where
  | leading (i : Nat)
  | trailing (i : Nat)
deriving DecidableEq

namespace CommentList

/-- The index of the entry. -/
def index : CommentList → Nat
  | leading i => i
  | trailing i => i

/-- The comments in the list of an entry. -/
def ofEntry : CommentList → Entry → List Comment
  | leading _, e => e.comments.leading
  | trailing _, e => e.comments.trailing

/-- The comments in a list of a literal; an entry that is not there has none. -/
def comments (entries : List Entry) (list : CommentList) : List Comment :=
  (entries[list.index]?.map list.ofEntry).getD []

/-- The same list of the next entry. -/
def next : CommentList → CommentList
  | leading i => leading (i + 1)
  | trailing i => trailing (i + 1)

end CommentList

/-- Entries in the order of the text, without overlap, between two offsets. -/
structure EntriesBetween (lo hi : Nat) (entries : List Entry) : Prop where
  spans : ∀ e ∈ entries, e.loc.lo ≤ e.loc.hi
  ordered : entries.Pairwise fun a b => a.loc.hi ≤ b.loc.lo
  inside : ∀ e ∈ entries, lo ≤ e.loc.lo ∧ e.loc.hi ≤ hi

/-- **Where a comment goes** in a literal that reaches from `lo` to `hi`. -/
inductive Goes (lo hi : Nat) (entries : List Entry) (c : Comment) : CommentList → Prop
  | first {e : Entry} (he : entries[0]? = some e) (hlo : lo ≤ c.pos) (hbefore : c.pos < e.loc.lo) :
    Goes lo hi entries c (.leading 0)
  | between {i : Nat} {e next : Entry} (he : entries[i]? = some e)
    (hnext : entries[i + 1]? = some next) (hbehind : e.loc.hi ≤ c.pos)
    (hbefore : c.pos < next.loc.lo) : Goes lo hi entries c (.leading (i + 1))
  | last {i : Nat} {e : Entry} (he : entries[i]? = some e) (hlast : i + 1 = entries.length)
    (hbehind : e.loc.hi ≤ c.pos) (hhi : c.pos < hi) (hline : c.line = e.loc.endLine) :
    Goes lo hi entries c (.trailing i)

/-- **The comments that go nowhere**: those outside of the literal, those inside an entry, and those
behind the last entry on another line. -/
inductive PassedOver (lo hi : Nat) (entries : List Entry) (c : Comment) : Prop
  | outside (h : c.pos < lo ∨ hi ≤ c.pos)
  | inside {e : Entry} (he : e ∈ entries) (hlo : e.loc.lo ≤ c.pos) (hhi : c.pos < e.loc.hi)
  | below {e : Entry} (he : entries.getLast? = some e) (hbehind : e.loc.hi ≤ c.pos)
    (hline : c.line ≠ e.loc.endLine)

/-! ### A comment goes to one list or is passed over -/

variable {lo hi : Nat} {entries : List Entry} {c : Comment}

namespace EntriesBetween

theorem tail {e : Entry} (h : EntriesBetween lo hi (e :: entries)) :
    EntriesBetween e.loc.hi hi entries where
  spans e' he' := h.spans e' (.tail _ he')
  ordered := h.ordered.tail
  inside e' he' := ⟨(List.pairwise_cons.mp h.ordered).1 e' he', (h.inside e' (.tail _ he')).2⟩

/-- Later entries start later and end later. -/
theorem bounds_le (h : EntriesBetween lo hi entries) {i j : Nat} {e e' : Entry}
    (he : entries[i]? = some e) (he' : entries[j]? = some e') (hij : i ≤ j) :
    e.loc.lo ≤ e'.loc.lo ∧ e.loc.hi ≤ e'.loc.hi := by
  have hspan := h.spans e (List.mem_of_getElem? he)
  have hspan' := h.spans e' (List.mem_of_getElem? he')
  rcases Nat.eq_or_lt_of_le hij with rfl | hlt
  · obtain rfl : e = e' := Option.some.inj (he.symm.trans he')
    omega
  · obtain ⟨hi, rfl⟩ := List.getElem?_eq_some_iff.mp he
    obtain ⟨hj, rfl⟩ := List.getElem?_eq_some_iff.mp he'
    have hapart := List.pairwise_iff_getElem.mp h.ordered i j hi hj hlt
    omega

end EntriesBetween

namespace Goes

/-- A comment leads an entry behind all those that end before it. -/
theorem lt_of_behind (hentries : EntriesBetween lo hi entries) {i j : Nat} {e : Entry}
    (h : Goes lo hi entries c (.leading i)) (he : entries[j]? = some e)
    (hbehind : e.loc.hi ≤ c.pos) : j < i := by
  by_contra hle
  have hled {e' : Entry} (he' : entries[i]? = some e') (hbefore : c.pos < e'.loc.lo) : False := by
    have hspan := hentries.spans e' (List.mem_of_getElem? he')
    have hbounds := hentries.bounds_le he' he (by omega)
    omega
  cases h with
  | first he' _ hbefore => exact hled he' hbefore
  | between _ hnext _ hbefore => exact hled hnext hbefore

theorem leading_le (hentries : EntriesBetween lo hi entries) {i j : Nat}
    (h : Goes lo hi entries c (.leading i)) (h' : Goes lo hi entries c (.leading j)) : i ≤ j := by
  cases h with
  | first => exact Nat.zero_le j
  | between he _ hbehind _ => exact h'.lt_of_behind hentries he hbehind

/-- A comment behind all entries leads none. -/
theorem not_leading_of_behind (hentries : EntriesBetween lo hi entries) {i j : Nat} {e : Entry}
    (he : entries[i]? = some e) (hlast : i + 1 = entries.length) (hbehind : e.loc.hi ≤ c.pos) :
    ¬Goes lo hi entries c (.leading j) := by
  intro h
  have hlt := h.lt_of_behind hentries he hbehind
  cases h with
  | first => omega
  | between _ hnext _ _ =>
    have := (List.getElem?_eq_some_iff.mp hnext).1
    omega

/-- **A comment goes to one list at most.** -/
theorem unique (hentries : EntriesBetween lo hi entries) {list list' : CommentList}
    (h : Goes lo hi entries c list) (h' : Goes lo hi entries c list') : list = list' := by
  cases list with
  | leading i =>
    cases list' with
    | leading j =>
      exact congrArg _ (Nat.le_antisymm (h.leading_le hentries h') (h'.leading_le hentries h))
    | trailing j =>
      obtain - | - | ⟨he, hlast, hbehind, -, -⟩ := h'
      exact absurd h (not_leading_of_behind hentries he hlast hbehind)
  | trailing i =>
    obtain - | - | ⟨he, hlast, hbehind, -, -⟩ := h
    cases list' with
    | leading j => exact absurd h' (not_leading_of_behind hentries he hlast hbehind)
    | trailing j =>
      obtain - | - | ⟨-, hlast', -, -, -⟩ := h'
      exact congrArg _ (by omega)

theorem exists_entry {list : CommentList} (h : Goes lo hi entries c list) :
    ∃ e, entries[list.index]? = some e := by
  cases h with
  | first he _ _ => exact ⟨_, he⟩
  | between _ hnext _ _ => exact ⟨_, hnext⟩
  | last he _ _ _ _ => exact ⟨_, he⟩

/-- A comment that goes somewhere is in the literal. -/
theorem bounds (hentries : EntriesBetween lo hi entries) {list : CommentList}
    (h : Goes lo hi entries c list) : lo ≤ c.pos ∧ c.pos < hi := by
  have hbounds {i : Nat} {e : Entry} (he : entries[i]? = some e) :
      lo ≤ e.loc.lo ∧ e.loc.lo ≤ e.loc.hi ∧ e.loc.hi ≤ hi := by
    have hmem := List.mem_of_getElem? he
    exact ⟨(hentries.inside e hmem).1, hentries.spans e hmem, (hentries.inside e hmem).2⟩
  cases h with
  | first he hlo hbefore =>
    have := hbounds he
    omega
  | between he hnext hbehind hbefore =>
    have := hbounds he
    have := hbounds hnext
    omega
  | last he hlast hbehind hhi hline =>
    have := hbounds he
    omega

/-- A comment that goes somewhere is in no entry. -/
theorem outside_entry (hentries : EntriesBetween lo hi entries) {list : CommentList}
    (h : Goes lo hi entries c list) {e : Entry} (he : e ∈ entries) :
    c.pos < e.loc.lo ∨ e.loc.hi ≤ c.pos := by
  obtain ⟨j, he⟩ := List.mem_iff_getElem?.mp he
  cases h with
  | first hfirst _ hbefore =>
    have := hentries.bounds_le hfirst he (Nat.zero_le j)
    omega
  | @between i _ _ hprevious hnext hbehind hbefore =>
    rcases Nat.lt_or_ge i j with hlt | hge
    · have := hentries.bounds_le hnext he hlt
      omega
    · have := hentries.bounds_le he hprevious hge
      omega
  | last hlast hlength hbehind _ _ =>
    have hj := (List.getElem?_eq_some_iff.mp he).1
    have := hentries.bounds_le he hlast (by omega)
    omega

/-- In a literal with one more entry in front, a comment goes to the same list of the same entry. -/
theorem cons (e : Entry) {list : CommentList} (h : Goes e.loc.hi hi entries c list) :
    Goes lo hi (e :: entries) c list.next := by
  cases h with
  | first hfirst hbehind hbefore => exact .between rfl hfirst hbehind hbefore
  | between he hnext hbehind hbefore => exact .between he hnext hbehind hbefore
  | last he hlast hbehind hhi hline => exact .last he (congrArg (· + 1) hlast) hbehind hhi hline

end Goes

/-- **A comment that is passed over goes to no list.** -/
theorem PassedOver.not_goes (hentries : EntriesBetween lo hi entries)
    (h : PassedOver lo hi entries c) (list : CommentList) : ¬Goes lo hi entries c list := by
  intro hgoes
  cases h with
  | outside h =>
    have := hgoes.bounds hentries
    omega
  | inside he hlo hhi =>
    have := hgoes.outside_entry hentries he
    omega
  | @below e he hbehind hline =>
    rw [List.getLast?_eq_getElem?] at he
    have hlength := (List.getElem?_eq_some_iff.mp he).1
    cases list with
    | leading i => exact Goes.not_leading_of_behind hentries he (by omega) hbehind hgoes
    | trailing i =>
      obtain - | - | ⟨he', hlast, -, -, hline'⟩ := hgoes
      rw [← hlast, Nat.add_sub_cancel, he'] at he
      exact hline (Option.some.inj he ▸ hline')

/-- **A comment goes somewhere or is passed over**, if there is an entry at all. -/
theorem goes_or_passedOver (lo hi : Nat) (e : Entry) (entries : List Entry) (c : Comment) :
    (∃ list, Goes lo hi (e :: entries) c list) ∨ PassedOver lo hi (e :: entries) c := by
  rcases Nat.lt_or_ge c.pos lo with hout | hlo
  · exact .inr (.outside (.inl hout))
  rcases Nat.lt_or_ge c.pos e.loc.lo with hbefore | hstart
  · exact .inl ⟨_, .first rfl hlo hbefore⟩
  rcases Nat.lt_or_ge c.pos e.loc.hi with hwithin | hbehind
  · exact .inr (.inside (.head _) hstart hwithin)
  -- The comment is behind the first entry, so that it goes by the entries behind.
  induction entries generalizing lo e with
  | nil =>
    rcases Nat.lt_or_ge c.pos hi with hhi | hout
    · by_cases hline : c.line = e.loc.endLine
      · exact .inl ⟨_, .last rfl rfl hbehind hhi hline⟩
      · exact .inr (.below rfl hbehind hline)
    · exact .inr (.outside (.inr hout))
  | cons e' entries ih =>
    rcases Nat.lt_or_ge c.pos e'.loc.lo with hbefore | hstart'
    · exact .inl ⟨.leading 1, .between rfl rfl hbehind hbefore⟩
    rcases Nat.lt_or_ge c.pos e'.loc.hi with hwithin | hbehind'
    · exact .inr (.inside (.tail _ (.head _)) hstart' hwithin)
    rcases ih e.loc.hi e' hbehind hstart' hbehind' with ⟨list, hgoes⟩ | hpassed
    · exact .inl ⟨list.next, hgoes.cons e⟩
    · refine .inr ?_
      cases hpassed with
      | outside hout => exact .outside (.inr (hout.resolve_left (Nat.not_lt.mpr hbehind)))
      | inside he hlo' hhi => exact .inside (.tail _ he) hlo' hhi
      | below he hbehind hline => exact .below he hbehind hline

/-! ### Attaching -/

/-- Where the gap in front of an entry starts. -/
def gapStart : Nat → List Entry → Nat → Nat
  | lo, _, 0 => lo
  | lo, [], _ + 1 => lo
  | _, e :: entries, i + 1 => gapStart e.loc.hi entries i

theorem gapStart_succ {i : Nat} {e : Entry} (he : entries[i]? = some e) (lo : Nat) :
    gapStart lo entries (i + 1) = e.loc.hi := by
  induction entries generalizing lo i with
  | nil => cases he
  | cons first entries ih =>
    cases i with
    | zero =>
      obtain rfl : first = e := Option.some.inj he
      cases entries <;> rfl
    | succ i => exact ih he _

theorem goes_leading_iff {i : Nat} {e : Entry} (he : entries[i]? = some e) :
    Goes lo hi entries c (.leading i) ↔ gapStart lo entries i ≤ c.pos ∧ c.pos < e.loc.lo := by
  constructor
  · intro h
    cases h with
    | first hfirst hlo hbefore =>
      obtain rfl := Option.some.inj (hfirst.symm.trans he)
      cases entries <;> exact ⟨hlo, hbefore⟩
    | between hprevious hnext hbehind hbefore =>
      obtain rfl := Option.some.inj (hnext.symm.trans he)
      exact ⟨(gapStart_succ hprevious lo).symm ▸ hbehind, hbefore⟩
  · rintro ⟨hstart, hbefore⟩
    cases i with
    | zero =>
      refine .first he ?_ hbefore
      cases entries <;> exact hstart
    | succ i =>
      have hlt := (List.getElem?_eq_some_iff.mp he).1
      have hprevious : entries[i]? = some entries[i] := List.getElem?_eq_getElem (by omega)
      exact .between hprevious he (gapStart_succ hprevious lo ▸ hstart) hbefore

theorem goes_trailing_iff {i : Nat} {e : Entry} (he : entries[i]? = some e) :
    Goes lo hi entries c (.trailing i) ↔
      i + 1 = entries.length ∧ e.loc.hi ≤ c.pos ∧ c.pos < hi ∧ c.line = e.loc.endLine := by
  constructor
  · rintro (_ | _ | ⟨hlast, hlength, hbehind, hhi, hline⟩)
    obtain rfl := Option.some.inj (hlast.symm.trans he)
    exact ⟨hlength, hbehind, hhi, hline⟩
  · rintro ⟨hlength, hbehind, hhi, hline⟩
    exact .last he hlength hbehind hhi hline

theorem not_goes_of_eq_none {list : CommentList} (h : entries[list.index]? = none) :
    ¬Goes lo hi entries c list := by
  intro hgoes
  obtain ⟨e, he⟩ := hgoes.exists_entry
  cases h.symm.trans he

instance decidableGoes (lo hi : Nat) (entries : List Entry) (c : Comment) :
    (list : CommentList) → Decidable (Goes lo hi entries c list)
  | .leading i =>
    match he : entries[i]? with
    | none => isFalse (not_goes_of_eq_none he)
    | some _ => decidable_of_iff _ (goes_leading_iff he).symm
  | .trailing i =>
    match he : entries[i]? with
    | none => isFalse (not_goes_of_eq_none he)
    | some _ => decidable_of_iff _ (goes_trailing_iff he).symm

namespace Layout

variable (l : Layout)

theorem getElem?_attachLeading (lo : Nat) (entries : List Entry) (i : Nat) :
    (l.attachLeading lo entries)[i]? = entries[i]?.map fun e =>
      e.withComments { e.comments with
        leading := l.between (gapStart lo entries i) e.loc.lo } := by
  induction entries generalizing lo i with
  | nil => rfl
  | cons e entries ih =>
    cases i with
    | zero => rfl
    | succ i => exact ih e.loc.hi i

theorem getElem?_attachTrailing (hi : Nat) (entries : List Entry) (i : Nat) :
    (l.attachTrailing hi entries)[i]? = entries[i]?.map fun e =>
      if i + 1 = entries.length then
        e.withComments { e.comments with
          trailing := (l.between e.loc.hi hi).filter (·.line == e.loc.endLine) }
      else e := by
  induction entries generalizing i with
  | nil => rfl
  | cons e entries ih =>
    cases entries with
    | nil => cases i <;> rfl
    | cons e' entries =>
      cases i with
      | zero => exact congrArg some (if_neg (by simp)).symm
      | succ i =>
        have hlength : i + 1 + 1 = (e :: e' :: entries).length ↔
          i + 1 = (e' :: entries).length := Nat.add_right_cancel_iff
        simp only [attachTrailing, List.getElem?_cons_succ, ih, hlength]

theorem getElem?_attach (loc : Loc) (entries : List Entry) (i : Nat) :
    (l.attach loc entries)[i]? = entries[i]?.map fun e =>
      e.withComments
        { leading := l.between (gapStart loc.lo entries i) e.loc.lo
          trailing :=
            if i + 1 = entries.length then
              (l.between e.loc.hi loc.hi).filter (·.line == e.loc.endLine)
            else e.comments.trailing } := by
  have hlength : (l.attachLeading loc.lo entries).length = entries.length := by
    rw [← List.length_map Entry.bare, l.attachLeading_bare, List.length_map]
  rw [attach, getElem?_attachTrailing, getElem?_attachLeading, Option.map_map, hlength]
  refine Option.map_congr fun e _ => ?_
  rw [Function.comp_apply]
  split <;> rfl

/-- **Attaching puts comments where they go.** -/
theorem comments_attach {loc : Loc} {entries : List Entry}
    (hnone : ∀ e ∈ entries, e.comments = .none) (list : CommentList) :
    list.comments (l.attach loc entries) =
      l.comments.filter fun c => Goes loc.lo loc.hi entries c list := by
  rw [CommentList.comments, getElem?_attach]
  cases he : entries[list.index]? with
  | none =>
    refine (List.filter_eq_nil_iff.mpr fun c _ hc => ?_).symm
    exact not_goes_of_eq_none he (of_decide_eq_true hc)
  | some e =>
    cases list with
    | leading i =>
      refine List.filter_congr fun c _ => ?_
      rw [← Bool.decide_and, decide_eq_decide]
      exact (goes_leading_iff he).symm
    | trailing i =>
      change (if i + 1 = entries.length then _ else e.comments.trailing) = _
      split
      next hlast =>
        rw [between, List.filter_filter]
        refine List.filter_congr fun c _ => ?_
        have hgoes : c.line = e.loc.endLine ∧ e.loc.hi ≤ c.pos ∧ c.pos < loc.hi ↔
            Goes loc.lo loc.hi entries c (.trailing i) := by
          refine .trans ⟨fun h => ?_, fun h => ?_⟩ (goes_trailing_iff he).symm
          · exact ⟨hlast, h.2.1, h.2.2, h.1⟩
          · exact ⟨h.2.2.2, h.2.1, h.2.2.1⟩
        simp only [← hgoes, Bool.decide_and]
        rfl
      next hlast =>
        rw [hnone e (List.mem_of_getElem? he)]
        refine (List.filter_eq_nil_iff.mpr fun c _ hc => hlast ?_).symm
        exact ((goes_trailing_iff he).mp (of_decide_eq_true hc)).1

/-- **The comments of a literal go to exactly the right entries.** Attaching changes nothing else of
the entries; each list of comments consists of the comments that go to it, in the order of the text;
and each comment either goes to exactly one list, or is passed over and goes to none. -/
theorem comments_go_by_gaps {loc : Loc} {entries : List Entry}
    (hcomments : l.comments.Pairwise fun a b => a.pos ≤ b.pos) (hne : entries ≠ [])
    (hnone : ∀ e ∈ entries, e.comments = .none)
    (hentries : EntriesBetween loc.lo loc.hi entries) :
    (l.attach loc entries).map Entry.bare = entries ∧
      (∀ list : CommentList,
        list.comments (l.attach loc entries) =
            l.comments.filter (fun c => Goes loc.lo loc.hi entries c list) ∧
          (list.comments (l.attach loc entries)).Pairwise fun a b => a.pos ≤ b.pos) ∧
      ∀ c, (∃! list, Goes loc.lo loc.hi entries c list) ∧ ¬PassedOver loc.lo loc.hi entries c ∨
        (∀ list, ¬Goes loc.lo loc.hi entries c list) ∧ PassedOver loc.lo loc.hi entries c := by
  refine ⟨?_, fun list => ?_, fun c => ?_⟩
  · rw [l.attach_bare, List.map_congr_left (g := id), List.map_id]
    intro e he
    obtain ⟨kind, value, place, comments⟩ := e
    exact congrArg (Entry.mk kind value place) (hnone _ he).symm
  · rw [l.comments_attach hnone]
    exact ⟨rfl, hcomments.filter _⟩
  · obtain ⟨e, rest, rfl⟩ := List.exists_cons_of_ne_nil hne
    obtain ⟨list, hgoes⟩ | hpassed := goes_or_passedOver loc.lo loc.hi e rest c
    · exact .inl ⟨⟨list, hgoes, fun _ hgoes' => hgoes'.unique hentries hgoes⟩,
        fun hpassed => hpassed.not_goes hentries list hgoes⟩
    · exact .inr ⟨hpassed.not_goes hentries, hpassed⟩

/-- The literal of two entries with a comment in front of it, one before and one inside the first
entry, one right where the first entry ends, one behind the second entry and one on the line below. -/
theorem comments_of_two_entries :
    let at' (pos line : Nat) : Comment := ⟨.line, "", pos, line⟩
    let entry (name : String) (loc : Loc) : Entry := .mk (.keyed name) (.ident loc name) loc .none
    let l : Layout := ⟨[], [], [at' 0 1, at' 11 2, at' 14 2, at' 18 2, at' 25 3, at' 31 4]⟩
    let loc : Loc := ⟨10, 40, 2, 5⟩
    let entries := [entry "x" ⟨12, 18, 2, 2⟩, entry "y" ⟨20, 24, 3, 3⟩]
    (l.comments.Pairwise (fun a b => a.pos ≤ b.pos) ∧ entries ≠ [] ∧
        (∀ e ∈ entries, e.comments = .none) ∧ EntriesBetween loc.lo loc.hi entries) ∧
      [.leading 0, .trailing 0, .leading 1, .trailing 1].map
          (CommentList.comments (l.attach loc entries)) =
        [[at' 11 2], [], [at' 18 2], [at' 25 3]] := by
  intro at' entry l loc entries
  have hcomments : l.comments.Pairwise fun a b => a.pos ≤ b.pos := by decide
  have hnone : ∀ e ∈ entries, e.comments = .none := by
    simp [entries, entry, Entry.comments]
  have hentries : EntriesBetween loc.lo loc.hi entries :=
    ⟨by simp [entries, entry, Entry.loc], by simp [entries, entry, Entry.loc],
      by simp [entries, entry, loc, Entry.loc]⟩
  have hne : entries ≠ [] := List.cons_ne_nil _ _
  obtain ⟨-, hlists, -⟩ := l.comments_go_by_gaps hcomments hne hnone hentries
  refine ⟨⟨hcomments, hne, hnone, hentries⟩, ?_⟩
  simp only [List.map_cons, List.map_nil, (hlists _).1]
  decide

end Layout

end SchemaDoc
