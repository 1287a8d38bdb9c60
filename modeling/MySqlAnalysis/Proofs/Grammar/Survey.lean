import MySqlAnalysis.Proofs.Grammar.Doubts

/-!
# The survey of a program

`Program.survey` follows a program with the doubts that are open, and checks that none is left
where a token is refused. Some kinds are noted although the token is then left alone: those of
an `Opening`, a token that starts something only together with the tokens behind it. Their
doubts are dropped, and where one stands the opening dangles.

If the bodies of all phrases pass the check, a report lists the kind of its token only if the
token is a dangling opening (`run_surveyed`). What one step keeps is that the notes of the
survey are true (`Notes.Hold`).
-/

set_option autoImplicit false

namespace MySqlAnalysis.Grammar

variable {c : Context} {ahead all : List Token}

/-! ### Openings -/

/-- A word was read before the tokens ahead. -/
def Passed (all ahead : List Token) (k : Keyword) : Prop :=
  ∃ before, before ++ ahead = all ∧ ∃ t ∈ before, t.kind = .keyword k

theorem Passed.mono {ahead' : List Token} {k : Keyword} (h : Passed all ahead k)
    (hsuffix : ahead' <:+ ahead) : Passed all ahead' k := by
  obtain ⟨before, rfl, t, ht, hkind⟩ := h
  obtain ⟨read, rfl⟩ := hsuffix
  exact ⟨before ++ read, List.append_assoc _ _ _, t, List.mem_append_left _ ht, hkind⟩

theorem passed_of_cons {t : Token} {k : Keyword} (h : t :: ahead <:+ all)
    (hkind : t.kind = .keyword k) : Passed all ahead k := by
  obtain ⟨before, rfl⟩ := h
  exact ⟨before ++ [t], List.append_cons _ _ _ ▸ rfl, t, List.mem_concat_self, hkind⟩

/-- A token of a kind that opens something only where the look succeeds, and is only tried
behind the given word, if one is given. -/
structure Opening where
  kind : TokenKind
  look : Look
  after : Option Keyword

/-- The next token is of the kind that an opening has, but opens nothing. -/
structure Opening.Dangles (c : Context) (all ahead : List Token) (o : Opening) : Prop where
  kind : c.kindAt ahead 0 = o.kind
  look : o.look.holds c ahead = false
  after : ∀ k ∈ o.after, Passed all ahead k

/-- The kinds of a report are different ones, and the kind of its token is only among them
if the token is an opening that opens nothing. -/
structure Report.Vouched (openings : List Opening) (c : Context) (all : List Token)
    (r : Report) : Prop where
  nodup : r.expected.Nodup
  dangles : r.offending.kind ∈ r.expected →
    ∃ ahead, ahead <:+ all ∧ r.offending = c.peek ahead 0 ∧ ∃ o ∈ openings, o.Dangles c all ahead

/-! ### Notes -/

/-- What is known before a token is read. -/
structure Notes where
  /-- The doubts that are open. -/
  doubts : List Doubt
  /-- Looks that fail. -/
  failed : List Look
  /-- The next token, if it is known to be this word. -/
  here : Option Keyword
  /-- Words that were read. -/
  passed : List Keyword

/-- The word that the next token has to be for a look to succeed. -/
def Look.onlyWord? : Look → Option Keyword
  | .among 0 [.keyword k] => some k
  | _ => none

theorem Look.kindAt_of_onlyWord? {l : Look} {k : Keyword} (h : l.onlyWord? = some k)
    (hl : l.holds c ahead = true) : c.kindAt ahead 0 = .keyword k := by
  unfold onlyWord? at h
  split at h
  case h_1 k' =>
    cases h
    simpa [holds] using hl
  case h_2 => cases h

/-- Whether the doubt stands only where one of the given ones does. -/
def covered (doubts : List Doubt) (d : Doubt) : Bool :=
  doubts.contains d || doubts.contains (.plain d.kind)

theorem exists_of_covered {doubts : List Doubt} {d : Doubt} (h : covered doubts d = true)
    (hd : d.Stands c ahead) : ∃ d' ∈ doubts, d'.Stands c ahead := by
  rcases Bool.or_eq_true_iff.1 h with hsame | hplain
  · exact ⟨d, List.contains_iff_mem.1 hsame, hd⟩
  · exact ⟨_, List.contains_iff_mem.1 hplain, Doubt.stands_plain hd.kind⟩

theorem covered_append_left {doubts : List Doubt} {d : Doubt} (h : covered doubts d = true)
    (more : List Doubt) : covered (doubts ++ more) d = true := by
  rw [covered, Bool.or_eq_true, List.contains_iff_mem, List.contains_iff_mem] at h ⊢
  exact h.imp (List.mem_append_left _) (List.mem_append_left _)

theorem covered_of_mem {doubts : List Doubt} {d : Doubt} (h : d ∈ doubts) :
    covered doubts d = true :=
  Bool.or_eq_true_iff.2 (.inl (List.contains_iff_mem.2 h))

namespace Notes

/-- Nothing but some doubts. -/
def start (doubts : List Doubt) : Notes := ⟨doubts, [], none, []⟩

/-- After some tokens. -/
def cleared (n : Notes) : Notes := ⟨[], [], none, n.passed⟩

/-- After the next token. -/
def advance (n : Notes) : Notes := ⟨[], [], none, n.here.toList ++ n.passed⟩

/-- Whether the doubt is that of an opening. -/
def drops (openings : List Opening) (n : Notes) (d : Doubt) : Bool :=
  openings.any fun o =>
    o.kind == d.kind && some o.look == d.failed && o.after.all n.passed.contains

/-- After a test that had the answer. -/
def branch (openings : List Opening) (n : Notes) (t : Test) (answer : Bool) : Notes where
  doubts := (n.doubts ++ t.doubts answer).filter fun d =>
    t.question.answer? d != some (!answer) && !n.drops openings d
  failed := if answer then n.failed else t.question :: n.failed
  here := if answer then t.question.onlyWord?.or n.here else n.here
  passed := n.passed

/-- Whether the next token is known not to have the kind. -/
def excludes (n : Notes) (kind : TokenKind) : Bool :=
  n.failed.any fun l => l.answer? (.plain kind) == some true

/-- Before a round of a loop, when each round leaves at most the doubts `more` behind. -/
def opened (n : Notes) (more : List Doubt) : Notes :=
  ⟨n.doubts ++ more.filter (!covered n.doubts ·), [], none, n.passed⟩

theorem opened_opened (n : Notes) (more : List Doubt) :
    (n.opened more).opened more = n.opened more := by
  have hnone : more.filter (!covered (n.opened more).doubts ·) = [] := by
    refine List.filter_eq_nil_iff.2 fun d hd => ?_
    rw [Bool.not_eq_true', Bool.not_eq_false]
    cases hcovered : covered n.doubts d with
    | true => exact covered_append_left hcovered _
    | false =>
        refine covered_of_mem (List.mem_append_right _ (List.mem_filter.2 ⟨hd, ?_⟩))
        rw [hcovered, Bool.not_false]
  rw [opened, hnone, List.append_nil]
  rfl

/-- What is known in both cases. -/
def join (m n : Notes) : Notes where
  doubts := m.doubts ∪ n.doubts
  failed := m.failed ∩ n.failed
  here := if m.here = n.here then m.here else none
  passed := m.passed ∩ n.passed

end Notes

/-! ### The survey of a program -/

/-- What is found when a program is followed: whether no doubt is left where a token is
refused, and what is known where it finishes, if it does. -/
structure Survey where
  ok : Bool
  ending : Option Notes

/-- Goes on where a program finishes, if it does. -/
def Survey.andThen (found : Survey) (f : Notes → Survey) : Survey :=
  match found.ending with
  | none => found
  | some n => ⟨found.ok && (f n).ok, (f n).ending⟩

section Survey

variable {φ : Type}

/-- Follows a program; `enter` tells which doubts may be open where a phrase begins. None
may be open where it ends. -/
def Program.survey (openings : List Opening) (enter : φ → List Doubt) :
    Program φ → Notes → Survey
  | done, n => ⟨true, some n⟩
  | advance, n => ⟨true, some n.advance⟩
  | expect kind, n => ⟨n.doubts.all (·.kind == kind), some n.cleared⟩
  | refuse (.noAlternative starts), n => ⟨n.doubts.isEmpty && starts.all n.excludes, none⟩
  | refuse _, n => ⟨n.doubts.isEmpty, none⟩
  | seq p q, n => (p.survey openings enter n).andThen (q.survey openings enter)
  | cond t p q, n =>
    let first := p.survey openings enter (n.branch openings t true)
    let second := q.survey openings enter (n.branch openings t false)
    ⟨first.ok && second.ok, Option.merge Notes.join first.ending second.ending⟩
  | loop t p, n =>
    -- a round from no doubts tells which ones it adds
    let fresh := p.survey openings enter ((Notes.start []).branch openings t true)
    let m := n.opened ((fresh.ending.map Notes.doubts).getD [])
    let round := p.survey openings enter (m.branch openings t true)
    ⟨round.ok && round.ending.all fun e => e.doubts.all (covered m.doubts),
      some (m.branch openings t false)⟩
  | node _ p, n => p.survey openings enter n
  | wrap _ p, n => p.survey openings enter n
  | attempt p q, n =>
    let first := p.survey openings enter n
    let second := q.survey openings enter n
    ⟨first.ok && second.ok, Option.merge Notes.join first.ending second.ending⟩
  | resume p, n =>
    let read := p.survey openings enter n
    ⟨read.ok, Option.merge Notes.join read.ending
      (some (.start [.plain .semicolon, .plain .eof]))⟩
  | call phrase, n => ⟨n.doubts.all (covered (enter phrase)), some n.cleared⟩

/-- The doubts that a round of a loop adds. -/
def Program.added (openings : List Opening) (enter : φ → List Doubt) (t : Test)
    (p : Program φ) : List Doubt :=
  ((p.survey openings enter ((Notes.start []).branch openings t true)).ending.map
    Notes.doubts).getD []

/-- Another round finds what the first one did. -/
theorem Program.survey_opened (openings : List Opening) (enter : φ → List Doubt) (t : Test)
    (p : Program φ) (n : Notes) :
    (loop t p).survey openings enter (n.opened (p.added openings enter t)) =
      (loop t p).survey openings enter n := by
  rw [survey, survey, ← added, Notes.opened_opened]

/-- Whether the body of a phrase may begin with its doubts and ends without one. -/
def Program.settles (openings : List Opening) (enter : φ → List Doubt) (phrase : φ)
    (body : Program φ) : Bool :=
  let found := body.survey openings enter (.start (enter phrase))
  found.ok && found.ending.all (·.doubts.isEmpty)

end Survey

/-! ### States -/

/-- All reports are right, and the kinds noted since the last token are different ones. -/
structure State.Vouched {β : Type} (openings : List Opening) (c : Context) (all : List Token)
    (s : State β) : Prop where
  ahead : s.ahead <:+ all
  nodup : s.expected.Nodup
  reports : ∀ r ∈ s.reports, r.Vouched openings c all

/-- The notes are true: in particular, the next token has a kind that was noted only if it
is an opening that opens nothing or a doubt stands. -/
structure Notes.Hold {β : Type} (openings : List Opening) (c : Context) (all : List Token)
    (s : State β) (n : Notes) : Prop extends s.Vouched openings c all where
  noted : c.kindAt s.ahead 0 ∈ s.expected →
    (∃ o ∈ openings, o.Dangles c all s.ahead) ∨ ∃ d ∈ n.doubts, d.Stands c s.ahead
  failed : ∀ l ∈ n.failed, l.holds c s.ahead = false
  here : ∀ k ∈ n.here, c.kindAt s.ahead 0 = .keyword k
  passed : ∀ k ∈ n.passed, Passed all s.ahead k

/-- Tokens were read, all reports are right, and the notes are true if the program finished. -/
def Outcome.Meets {β : Type} (openings : List Opening) (c : Context) (all : List Token)
    (s : State β) (e : Option Notes) : Outcome β → Prop
  | .finished s' => s'.ahead <:+ s.ahead ∧ ∃ n ∈ e, n.Hold openings c all s'
  | .aborted _ s' => s'.ahead <:+ s.ahead ∧ s'.Vouched openings c all

section States

variable {β : Type} {openings : List Opening} {s s' : State β} {m n : Notes}

namespace Notes

/-- Only the tokens ahead, the noted kinds and the reports matter. -/
theorem Hold.of_eq (h : n.Hold openings c all s) (hahead : s'.ahead = s.ahead)
    (hexpected : s'.expected = s.expected) (hreports : s'.reports = s.reports) :
    n.Hold openings c all s' where
  ahead := hahead ▸ h.ahead
  nodup := hexpected ▸ h.nodup
  reports := hreports ▸ h.reports
  noted := by
    rw [hahead, hexpected]
    exact h.noted
  failed := hahead ▸ h.failed
  here := hahead ▸ h.here
  passed := hahead ▸ h.passed

/-- Notes of doubts and words alone. -/
theorem hold_of_noted (h : s.Vouched openings c all) {doubts : List Doubt}
    (hnoted : c.kindAt s.ahead 0 ∈ s.expected →
      (∃ o ∈ openings, o.Dangles c all s.ahead) ∨ ∃ d ∈ doubts, d.Stands c s.ahead)
    {passed : List Keyword} (hpassed : ∀ k ∈ passed, Passed all s.ahead k) :
    Hold openings c all s ⟨doubts, [], none, passed⟩ where
  toVouched := h
  noted := hnoted
  failed _ hl := nomatch hl
  here _ hk := nomatch hk
  passed := hpassed

/-- Where no kind was noted there is no doubt. -/
theorem hold_of_expected_nil (h : s.Vouched openings c all) (hexpected : s.expected = [])
    {passed : List Keyword} (hpassed : ∀ k ∈ passed, Passed all s.ahead k) :
    Hold openings c all s ⟨[], [], none, passed⟩ := by
  refine hold_of_noted h (fun hmem => ?_) hpassed
  rw [hexpected] at hmem
  cases hmem

/-- More doubts may be open than are. -/
theorem Hold.weaken (h : m.Hold openings c all s) {doubts : List Doubt}
    (hdoubts : ∀ d ∈ m.doubts, covered doubts d = true) {passed : List Keyword}
    (hpassed : ∀ k ∈ passed, Passed all s.ahead k) :
    Hold openings c all s ⟨doubts, [], none, passed⟩ := by
  refine hold_of_noted h.toVouched (fun hmem => (h.noted hmem).imp_right ?_) hpassed
  rintro ⟨d, hd, hstands⟩
  exact exists_of_covered (hdoubts d hd) hstands

theorem Hold.join_left (h : m.Hold openings c all s) (n : Notes) :
    (m.join n).Hold openings c all s where
  toVouched := h.toVouched
  noted hmem := (h.noted hmem).imp_right fun ⟨d, hd, hstands⟩ =>
    ⟨d, List.mem_union_iff.2 (.inl hd), hstands⟩
  failed l hl := h.failed l (List.mem_inter_iff.1 hl).1
  here k hk := by
    rw [join] at hk
    split at hk
    case isTrue => exact h.here k hk
    case isFalse => cases hk
  passed k hk := h.passed k (List.mem_inter_iff.1 hk).1

theorem Hold.join_right (h : n.Hold openings c all s) (m : Notes) :
    (m.join n).Hold openings c all s where
  toVouched := h.toVouched
  noted hmem := (h.noted hmem).imp_right fun ⟨d, hd, hstands⟩ =>
    ⟨d, List.mem_union_iff.2 (.inr hd), hstands⟩
  failed l hl := h.failed l (List.mem_inter_iff.1 hl).2
  here k hk := by
    rw [join] at hk
    split at hk
    case isTrue hsame => exact h.here k (hsame ▸ hk)
    case isFalse => cases hk
  passed k hk := h.passed k (List.mem_inter_iff.1 hk).2

theorem merge_left {e : Option Notes} (h : ∃ m ∈ e, m.Hold openings c all s)
    (e' : Option Notes) : ∃ n ∈ Option.merge join e e', n.Hold openings c all s := by
  obtain ⟨m, rfl, hm⟩ := h
  cases e' with
  | none => exact ⟨m, rfl, hm⟩
  | some n => exact ⟨_, rfl, hm.join_left n⟩

theorem merge_right {e' : Option Notes} (h : ∃ n ∈ e', n.Hold openings c all s)
    (e : Option Notes) : ∃ n ∈ Option.merge join e e', n.Hold openings c all s := by
  obtain ⟨n, rfl, hn⟩ := h
  cases e with
  | none => exact ⟨n, rfl, hn⟩
  | some m => exact ⟨_, rfl, hn.join_right m⟩

theorem dangles_of_drops {d : Doubt} (h : n.Hold openings c all s)
    (hdrops : n.drops openings d = true) (hd : d.Stands c s.ahead) :
    ∃ o ∈ openings, o.Dangles c all s.ahead := by
  obtain ⟨o, ho, hdrop⟩ := List.any_eq_true.1 hdrops
  rw [Bool.and_eq_true, Bool.and_eq_true, beq_iff_eq, beq_iff_eq, Option.all_eq_true] at hdrop
  obtain ⟨⟨hkind, hlook⟩, hafter⟩ := hdrop
  exact ⟨o, ho, hd.kind.trans hkind.symm, hd.failed _ hlook.symm, fun k hk =>
    h.passed k (List.contains_iff_mem.1 (hafter k hk))⟩

/-- A test adds its doubts, and takes away those that its answer speaks against. -/
theorem Hold.branch (h : n.Hold openings c all s) {t : Test} {answer : Bool}
    {expected : List TokenKind} (heval : t.eval c s.ahead s.expected = (answer, expected)) :
    (n.branch openings t answer).Hold openings c all { s with expected } := by
  have hquestion : t.question.holds c s.ahead = answer := by
    rw [t.question_holds s.expected, heval]
  refine ⟨⟨h.ahead, ?_, h.reports⟩, fun hmem => ?_, fun l hl => ?_, fun k hk => ?_, h.passed⟩
  · have hnodup : (t.eval c s.ahead s.expected).2.Nodup := t.nodup_eval h.nodup
    rwa [heval] at hnodup
  · -- an open doubt stays, unless an opening or the answer settles it
    have hkeep : ∀ d ∈ n.doubts ++ t.doubts answer, d.Stands c s.ahead →
        (∃ o ∈ openings, o.Dangles c all s.ahead) ∨
          ∃ d ∈ (n.branch openings t answer).doubts, d.Stands c s.ahead := by
      intro d hd hstands
      cases hdrops : n.drops openings d with
      | true => exact .inl (dangles_of_drops h hdrops hstands)
      | false =>
          refine .inr ⟨d, List.mem_filter.2 ⟨hd, ?_⟩, hstands⟩
          rw [hdrops, Bool.not_false, Bool.and_true, bne_iff_ne]
          intro hanswer
          have hholds := hstands.holds_eq t.question hanswer
          rw [hquestion] at hholds
          cases answer <;> cases hholds
    rcases t.noted heval hmem with hbefore | ⟨d, hd, hstands⟩
    · rcases h.noted hbefore with hdangles | ⟨d, hd, hstands⟩
      · exact .inl hdangles
      · exact hkeep d (List.mem_append_left _ hd) hstands
    · exact hkeep d (List.mem_append_right _ hd) hstands
  · cases answer with
    | true => exact h.failed l hl
    | false =>
        rcases List.mem_cons.1 hl with rfl | hl
        · exact hquestion
        · exact h.failed l hl
  · cases answer with
    | false => exact h.here k hk
    | true =>
        rcases hword : t.question.onlyWord? with _ | k' <;>
          rw [Notes.branch, hword] at hk
        · exact h.here k hk
        · cases hk
          exact Look.kindAt_of_onlyWord? hword hquestion

end Notes

/-! ### Outcomes -/

namespace Outcome

variable {o : Outcome β} {e e' : Option Notes}

/-- A step that changes neither the tokens ahead nor the noted kinds and the reports. -/
theorem Meets.map (h : o.Meets openings c all s e) {f : State β → State β}
    (hahead : ∀ s, (f s).ahead = s.ahead) (hexpected : ∀ s, (f s).expected = s.expected)
    (hreports : ∀ s, (f s).reports = s.reports) : (o.map f).Meets openings c all s e := by
  cases o with
  | finished s' =>
      obtain ⟨hsuffix, n, hn, hhold⟩ := h
      exact ⟨(hahead s').symm ▸ hsuffix, n, hn,
        hhold.of_eq (hahead s') (hexpected s') (hreports s')⟩
  | aborted why s' =>
      obtain ⟨hsuffix, hvouched⟩ := h
      exact ⟨(hahead s').symm ▸ hsuffix, (hahead s').symm ▸ hvouched.ahead,
        (hexpected s').symm ▸ hvouched.nodup, (hreports s').symm ▸ hvouched.reports⟩

theorem Meets.andThen (h : o.Meets openings c all s e) {f : State β → Outcome β}
    (hf : ∀ s' n, s'.ahead <:+ s.ahead → n ∈ e → n.Hold openings c all s' →
      (f s').Meets openings c all s' e') : (o.andThen f).Meets openings c all s e' := by
  cases o with
  | aborted why s' => exact h
  | finished s' =>
      obtain ⟨hsuffix, n, hn, hhold⟩ := h
      have hnext := hf s' n hsuffix hn hhold
      rw [andThen_finished]
      cases ho : f s' with
      | finished s'' =>
          rw [ho] at hnext
          exact ⟨hnext.1.trans hsuffix, hnext.2⟩
      | aborted why s'' =>
          rw [ho] at hnext
          exact ⟨hnext.1.trans hsuffix, hnext.2⟩

theorem Meets.mono (h : o.Meets openings c all s e)
    (he : ∀ s' : State β, s'.ahead <:+ s.ahead → (∃ n ∈ e, n.Hold openings c all s') →
      ∃ n ∈ e', n.Hold openings c all s') : o.Meets openings c all s e' := by
  cases o with
  | finished s' => exact ⟨h.1, he s' h.1 h.2⟩
  | aborted why s' => exact h

theorem Meets.of_start_eq (h : o.Meets openings c all s' e) (hahead : s'.ahead = s.ahead) :
    o.Meets openings c all s e := by
  cases o with
  | finished s'' => exact ⟨hahead ▸ h.1, h.2⟩
  | aborted why s'' => exact ⟨hahead ▸ h.1, h.2⟩

theorem Meets.merge_left (h : o.Meets openings c all s e) (e' : Option Notes) :
    o.Meets openings c all s (Option.merge Notes.join e e') :=
  h.mono fun _ _ hn => Notes.merge_left hn e'

theorem Meets.merge_right (h : o.Meets openings c all s e') (e : Option Notes) :
    o.Meets openings c all s (Option.merge Notes.join e e') :=
  h.mono fun _ _ hn => Notes.merge_right hn e

end Outcome

/-! ### Single moves -/

namespace State

theorem Vouched.report (h : s.Vouched openings c all)
    (hdangles : c.kindAt s.ahead 0 ∈ s.expected → ∃ o ∈ openings, o.Dangles c all s.ahead)
    (cause : Cause) : (s.report c cause).Vouched openings c all where
  ahead := h.ahead
  nodup := h.nodup
  reports r hr := by
    rcases List.mem_append.1 hr with hr | hr
    · exact h.reports r hr
    · rw [List.mem_singleton.1 hr]
      exact ⟨h.nodup, fun hmem => ⟨s.ahead, h.ahead, rfl, hdangles hmem⟩⟩

theorem Vouched.fail (h : s.Vouched openings c all)
    (hdangles : c.kindAt s.ahead 0 ∈ s.expected → ∃ o ∈ openings, o.Dangles c all s.ahead)
    (r : Reaction) (cause : Cause) (e : Option Notes) :
    (s.fail c r cause).Meets openings c all s e := by
  cases r with
  | bail => exact ⟨List.suffix_rfl, h⟩
  | recover => exact ⟨List.suffix_rfl, h.report hdangles cause⟩
  | backtrack => exact ⟨List.suffix_rfl, h⟩

end State

/-- Where no doubt is open, the next token has a kind that was noted only if it dangles. -/
theorem Notes.Hold.dangles (h : n.Hold openings c all s) (hdoubts : n.doubts.isEmpty = true)
    (hmem : c.kindAt s.ahead 0 ∈ s.expected) : ∃ o ∈ openings, o.Dangles c all s.ahead := by
  refine (h.noted hmem).resolve_right ?_
  rintro ⟨d, hd, -⟩
  rw [List.isEmpty_iff.1 hdoubts] at hd
  cases hd

theorem Notes.Hold.refuse {φ : Type} {enter : φ → List Doubt} {why : Refusal}
    (h : n.Hold openings c all s)
    (hok : ((Program.refuse why).survey openings enter n).ok = true) (r : Reaction)
    (e : Option Notes) : (s.refuse c r why).Meets openings c all s e := by
  cases why with
  | mismatch => exact h.toVouched.fail (h.dangles hok) r _ e
  | gate rule version => exact h.toVouched.fail (h.dangles hok) r _ e
  | noAlternative starts =>
      obtain ⟨hdoubts, hstarts⟩ := Bool.and_eq_true_iff.1 hok
      have hnoted : State.Vouched openings c all
          { s with expected := noteKinds s.expected starts } :=
        ⟨h.ahead, nodup_noteKinds h.nodup, h.reports⟩
      refine hnoted.fail (fun hmem => ?_) r _ e
      rcases mem_noteKinds.1 hmem with hbefore | hstart
      · exact h.dangles hdoubts hbefore
      · -- a look that would succeed at this start has failed
        obtain ⟨l, hl, hanswer⟩ := List.any_eq_true.1 (List.all_eq_true.1 hstarts _ hstart)
        have hholds := (Doubt.stands_plain rfl).holds_eq (c := c) l (beq_iff_eq.1 hanswer)
        rw [h.failed l hl] at hholds
        cases hholds

variable [Builder β]

theorem State.Vouched.consume (h : s.Vouched openings c all) :
    (s.consume c).Vouched openings c all :=
  ⟨(s.consume_suffix c).trans h.ahead, List.nodup_nil, h.reports⟩

theorem Notes.Hold.advance (h : n.Hold openings c all s) (hc : c.ending.isEof = true) :
    n.advance.Hold openings c all (s.consume c) := by
  refine hold_of_expected_nil h.toVouched.consume rfl fun k hk => ?_
  rcases List.mem_append.1 hk with hhere | hpassed
  · have hkind : c.kindAt s.ahead 0 = .keyword k := h.here k (by simpa using hhere)
    cases hahead : s.ahead with
    | nil =>
        rw [hahead] at hkind
        exact absurd ((beq_iff_eq.1 hc).symm.trans hkind) TokenKind.noConfusion
    | cons t ts =>
        rw [hahead] at hkind
        have heof : t.isEof = false := by
          rw [Token.isEof, show t.kind = .keyword k from hkind]
          rfl
        have hts : (s.consume c).ahead = ts := by
          simp [State.consume, State.shift, State.current, Context.peek, hahead, heof]
        rw [hts]
        exact passed_of_cons (hahead ▸ h.ahead) hkind
  · exact (h.passed k hpassed).mono (s.consume_suffix c)

/-- A required token is in doubt if any is, so it is read and not refused. -/
theorem Notes.Hold.expect (h : n.Hold openings c all s) {kind : TokenKind}
    (hdoubts : n.doubts.all (·.kind == kind) = true) (r : Reaction) :
    (s.expect c r kind).Meets openings c all s (some n.cleared) := by
  have hnoted : State.Vouched openings c all { s with expected := noteKind s.expected kind } :=
    ⟨h.ahead, nodup_noteKind h.nodup kind, h.reports⟩
  have hcleared : ∀ s' : State β, s'.ahead <:+ s.ahead → s'.expected = [] →
      s'.Vouched openings c all →
      (Outcome.finished s').Meets openings c all s (some n.cleared) := fun s' hahead hnil hs' =>
    ⟨hahead, _, rfl, hold_of_expected_nil hs' hnil fun k hk => (h.passed k hk).mono hahead⟩
  rw [State.expect]
  dsimp only
  split_ifs with hfound hdelete hinsert
  · exact hcleared _ (s.consume_suffix c) rfl hnoted.consume
  all_goals
    have hother : c.kindAt s.ahead 0 ≠ kind := fun heq => hfound (beq_iff_eq.2 heq)
    have hdangles : c.kindAt s.ahead 0 ∈ noteKind s.expected kind →
        ∃ o ∈ openings, o.Dangles c all s.ahead := by
      intro hmem
      refine (h.noted ((mem_noteKind.1 hmem).resolve_right hother)).resolve_right ?_
      rintro ⟨d, hd, hstands⟩
      exact hother (hstands.kind.trans (beq_iff_eq.1 (List.all_eq_true.1 hdoubts d hd)))
  · have hreported := hnoted.report hdangles .extraneous
    refine hcleared _ ?_ rfl (State.Vouched.consume ⟨?_, hreported.nodup, hreported.reports⟩)
    · exact (State.consume_suffix _ c).trans (State.skip_suffix _ c)
    · exact (State.skip_suffix _ c).trans h.ahead
  · have hmissing : State.Vouched openings c all { s with expected := [kind] } :=
      ⟨h.ahead, List.pairwise_singleton _ kind, h.reports⟩
    have hreported := hmissing.report
      (fun hmem => absurd (List.mem_singleton.1 hmem) hother) (.missing kind)
    exact hcleared _ List.suffix_rfl rfl ⟨h.ahead, List.nodup_nil, hreported.reports⟩
  · exact hnoted.fail hdangles r _ _

theorem State.Vouched.undo (h : s.Vouched openings c all) (h' : s'.Vouched openings c all) :
    (s.undo s').Vouched openings c all :=
  ⟨h.ahead, h.nodup, h'.reports⟩

/-- What is passed over after an error leaves the noted kinds and the reports as they are. -/
theorem Skips.frame (h : Skips c s s') :
    s'.ahead <:+ s.ahead ∧ s'.expected = s.expected ∧ s'.reports = s.reports ∧
      Look.atStatementEnd.holds c s'.ahead = true := by
  induction h with
  | stop hend => exact ⟨List.suffix_rfl, rfl, rfl, hend⟩
  | @step s s' _ _ ih =>
      obtain ⟨hahead, hexpected, hreports, hend⟩ := ih
      exact ⟨hahead.trans (s.skip_suffix c), hexpected, hreports, hend⟩

/-- A statement that was given up is passed over to its end, which was possibly noted. -/
theorem State.Vouched.skipped (h : s.Vouched openings c all) (hskips : Skips c s s') :
    (Notes.start [.plain .semicolon, .plain .eof]).Hold openings c all s' := by
  obtain ⟨hahead, hexpected, hreports, hend⟩ := hskips.frame
  have hvouched : s'.Vouched openings c all :=
    ⟨hahead.trans h.ahead, hexpected ▸ h.nodup, hreports ▸ h.reports⟩
  refine Notes.hold_of_noted hvouched (fun _ => .inr ?_) fun _ hk => absurd hk List.not_mem_nil
  have hkind : c.kindAt s'.ahead 0 ∈ [TokenKind.semicolon, .eof] := List.contains_iff_mem.1 hend
  exact ⟨.plain (c.kindAt s'.ahead 0), List.mem_map_of_mem (f := Doubt.plain) hkind,
    Doubt.stands_plain rfl⟩

end States

/-! ### Programs -/

section Programs

variable {φ β : Type} [Builder β] {openings : List Opening} {enter : φ → List Doubt}
  {rules : φ → Program φ} {recur : Reaction → Program φ → State β → Outcome β}

/-- The second program starts with what the first one ended with, if it finishes at all. -/
theorem exec_surveyed_seq {p q : Program φ}
    (hp : ∀ (r : Reaction) (n : Notes) (s : State β), (p.survey openings enter n).ok = true →
      n.Hold openings c all s →
        (exec c rules recur r p s).Meets openings c all s (p.survey openings enter n).ending)
    (hq : ∀ (r : Reaction) (n : Notes) (s : State β), (q.survey openings enter n).ok = true →
      n.Hold openings c all s →
        (exec c rules recur r q s).Meets openings c all s (q.survey openings enter n).ending)
    (r : Reaction) {n : Notes} {s : State β}
    (hok : ((Program.seq p q).survey openings enter n).ok = true) (h : n.Hold openings c all s) :
    (exec c rules recur r (.seq p q) s).Meets openings c all s
      ((Program.seq p q).survey openings enter n).ending := by
  rw [Program.survey, Survey.andThen] at hok ⊢
  cases hending : (p.survey openings enter n).ending with
  | none =>
      rw [hending] at hok
      have hfirst := hp r n s hok h
      rw [hending] at hfirst
      refine hfirst.andThen fun s' m _ hm _ => ?_
      cases hm
  | some m =>
      rw [hending] at hok
      obtain ⟨hokp, hokq⟩ := Bool.and_eq_true_iff.1 hok
      have hfirst := hp r n s hokp h
      rw [hending] at hfirst
      refine hfirst.andThen fun s' m' _ hm' h' => ?_
      cases hm'
      exact hq r m s' hokq h'

/-- What holds of a loop before its first round, with all doubts open that a round may leave,
holds again after every round. -/
theorem exec_surveyed_loop {t : Test} {p : Program φ}
    (hrecur : ∀ (r : Reaction) (p : Program φ) (n : Notes) (s : State β),
      (p.survey openings enter n).ok = true → n.Hold openings c all s →
        (recur r p s).Meets openings c all s (p.survey openings enter n).ending)
    (hp : ∀ (r : Reaction) (n : Notes) (s : State β), (p.survey openings enter n).ok = true →
      n.Hold openings c all s →
        (exec c rules recur r p s).Meets openings c all s (p.survey openings enter n).ending)
    (r : Reaction) {n : Notes} {s : State β}
    (hok : ((Program.loop t p).survey openings enter n).ok = true) (h : n.Hold openings c all s) :
    (exec c rules recur r (.loop t p) s).Meets openings c all s
      ((Program.loop t p).survey openings enter n).ending := by
  have hagain := Program.survey_opened openings enter t p n
  rw [← hagain] at hok ⊢
  obtain ⟨hround, hcovered⟩ := Bool.and_eq_true_iff.1 hok
  rw [← Program.added, Notes.opened_opened] at hround hcovered
  have hopened : ∀ (m : Notes) (s' : State β), m.Hold openings c all s' →
      (∀ d ∈ m.doubts, covered (n.opened (p.added openings enter t)).doubts d = true) →
      s'.ahead <:+ s.ahead →
      (n.opened (p.added openings enter t)).Hold openings c all s' :=
    fun m s' hm hdoubts hsuffix => hm.weaken hdoubts fun k hk => (h.passed k hk).mono hsuffix
  have hfirst := hopened n s h
    (fun d hd => covered_of_mem (List.mem_append_left _ hd)) List.suffix_rfl
  rw [exec]
  split
  case h_1 expected heval =>
    have hbody := (hp r _ _ hround (hfirst.branch heval)).of_start_eq (s := s) rfl
    refine hbody.andThen fun s' m hsuffix hm h' => hrecur r (.loop t p) _ s' hok ?_
    rw [Option.mem_def] at hm
    rw [hm] at hcovered
    exact hopened m s' h' (List.all_eq_true.1 hcovered) hsuffix
  case h_2 expected heval =>
    refine ⟨List.suffix_rfl, _, rfl, ?_⟩
    rw [← Program.added, Notes.opened_opened]
    exact hfirst.branch heval

/-- A program does what its survey finds when everything that it calls does. -/
theorem exec_surveyed (hc : c.ending.isEof = true)
    (hrules : ∀ phrase, (rules phrase).settles openings enter phrase = true)
    (hrecur : ∀ (r : Reaction) (p : Program φ) (n : Notes) (s : State β),
      (p.survey openings enter n).ok = true → n.Hold openings c all s →
        (recur r p s).Meets openings c all s (p.survey openings enter n).ending)
    (p : Program φ) :
    ∀ (r : Reaction) (n : Notes) (s : State β),
      (p.survey openings enter n).ok = true → n.Hold openings c all s →
        (exec c rules recur r p s).Meets openings c all s
          (p.survey openings enter n).ending := by
  induction p with
  | done => exact fun r n s _ h => ⟨List.suffix_rfl, n, rfl, h⟩
  | advance => exact fun r n s _ h => ⟨s.consume_suffix c, _, rfl, h.advance hc⟩
  | expect kind => exact fun r n s hok h => h.expect hok r
  | refuse why => exact fun r n s hok h => h.refuse hok r _
  | seq p q ihp ihq => exact fun r n s hok h => exec_surveyed_seq ihp ihq r hok h
  | cond t p q ihp ihq =>
      intro r n s hok h
      obtain ⟨hokp, hokq⟩ := Bool.and_eq_true_iff.1 hok
      rw [exec]
      split
      case h_1 expected heval =>
        exact ((ihp r _ _ hokp (h.branch heval)).of_start_eq rfl).merge_left _
      case h_2 expected heval =>
        exact ((ihq r _ _ hokq (h.branch heval)).of_start_eq rfl).merge_right _
  | loop t p ih => exact fun r n s hok h => exec_surveyed_loop hrecur ih r hok h
  | node rule p ih =>
      intro r n s hok h
      have hbody := ih r n (s.enter c rule) hok (h.of_eq rfl rfl rfl)
      exact (hbody.of_start_eq rfl).map (fun _ => rfl) (fun _ => rfl) fun _ => rfl
  | wrap rule p ih =>
      intro r n s hok h
      have hbody := ih r n (s.enterAround c rule) hok (h.of_eq rfl rfl rfl)
      exact (hbody.of_start_eq rfl).map (fun _ => rfl) (fun _ => rfl) fun _ => rfl
  | attempt p q ihp ihq =>
      intro r n s hok h
      obtain ⟨hokp, hokq⟩ := Bool.and_eq_true_iff.1 hok
      have hp := ihp .backtrack n s hokp h
      rw [exec]
      cases ho : exec c rules recur .backtrack p s with
      | finished s' =>
          rw [ho] at hp
          exact hp.merge_left _
      | aborted why s' =>
          rw [ho] at hp
          -- what the attempt noted is taken back, its reports are not
          have hundone : n.Hold openings c all (s.undo s') :=
            ⟨h.toVouched.undo hp.2, h.noted, h.failed, h.here, h.passed⟩
          have hq := ((ihq r n _ hokq hundone).of_start_eq (s := s) rfl).merge_right
            (p.survey openings enter n).ending
          cases why with
          | exhausted => exact hp
          | cancelled token => exact hq
          | resync => exact hq
          | backtrack => exact hq
  | resume p ih =>
      intro r n s hok h
      have hp := ih r n s hok h
      rw [exec]
      split
      case h_1 s' ho =>
        rw [ho] at hp
        have hskips : Skips c s' (s'.skipStatement c) := skips_skipStatement hc s'
        have hskipped : (Outcome.finished (s'.skipStatement c)).Meets openings c all s
            (some (.start [.plain .semicolon, .plain .eof])) :=
          ⟨hskips.frame.1.trans hp.1, _, rfl, hp.2.skipped hskips⟩
        exact hskipped.merge_right _
      case h_2 => exact hp.merge_left _
  | call phrase =>
      intro r n s hok h
      obtain ⟨hbody, hending⟩ := Bool.and_eq_true_iff.1 (hrules phrase)
      have hstart : (Notes.start (enter phrase)).Hold openings c all s :=
        h.weaken (List.all_eq_true.1 hok)
          fun _ hk => absurd hk List.not_mem_nil
      refine (hrecur r _ _ s hbody hstart).mono fun s' hsuffix => ?_
      rintro ⟨m, hm, h'⟩
      rw [Option.mem_def.1 hm] at hending
      exact ⟨n.cleared, rfl, Notes.hold_of_noted h'.toVouched
        (fun hmem => .inl (h'.dangles hending hmem)) fun k hk => (h.passed k hk).mono hsuffix⟩

/-- Every run does what the survey of its program finds. -/
theorem run_surveyed (hc : c.ending.isEof = true)
    (hrules : ∀ phrase, (rules phrase).settles openings enter phrase = true) (fuel : Nat) :
    ∀ (r : Reaction) (p : Program φ) (n : Notes) (s : State β),
      (p.survey openings enter n).ok = true → n.Hold openings c all s →
        (run c rules fuel r p s).Meets openings c all s
          (p.survey openings enter n).ending := by
  induction fuel with
  | zero => exact fun r p n s _ h => ⟨List.suffix_rfl, h.toVouched⟩
  | succ fuel ih => exact fun r p n s => exec_surveyed hc hrules ih p r n s

end Programs

end MySqlAnalysis.Grammar
