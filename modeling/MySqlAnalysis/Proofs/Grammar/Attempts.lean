import MySqlAnalysis.Proofs.Grammar.Building

/-!
# Failed attempts leave no trace

An attempt is taken back by cutting the arena to its former size and by giving the
innermost open node its former parts. This restores the arena only if nothing else
was touched, which holds wherever a parse can get: in every state that a run passes
through (`Passes`), a node is open whose parts are stored, or none is open
(`State.Sound`). So after a failed attempt everything is as it was before, and
reading goes on as if the attempt had not been made (`attempt_leaves_no_trace`).
-/

set_option autoImplicit false

namespace MySqlAnalysis

/-! ### Arenas in which an attempt can be made -/

namespace Arena

/-- Without an open node everything that was added is taken back. -/
theorem Extends.undo_of_stack_eq_nil {a a' : Arena} (hstack : a.stack = [])
    (h : Extends a.nodes.size a a') : Arena.undo a a' = a := by
  have hnodes : a'.nodes.take a.nodes.size = a.nodes := by
    refine Array.ext_getElem? fun j => ?_
    have hsize := h.size
    rw [Array.take_eq_extract, Array.getElem?_extract]
    by_cases hj : j < a.nodes.size
    · -- the one node whose parts may change is not among those that were there
      rw [if_pos (by omega), Nat.zero_add, h.frame j hj (Nat.ne_of_lt hj)]
    · rw [if_neg (by omega), Array.getElem?_eq_none (Nat.le_of_not_lt hj)]
  rw [Arena.undo, h.stack, hnodes, Nat.sub_self, List.drop_zero]
  obtain ⟨nodes, stack⟩ := a
  cases hstack
  rfl

/-- A node can be opened where none is open. -/
theorem open_enter_of_stack_eq_nil {a : Arena} (hstack : a.stack = []) (rule : Rule)
    (first : Nat) :
    Open a.nodes.size (List.range a.nodes.size) [] (a.enter (.opened rule first [])) := by
  have hnodes : (a.enter (.opened rule first [])).nodes = a.nodes.push (.opened rule first []) := by
    rw [enter, add, modifyTop, hstack]
  refine ⟨rfl, .opened rule first [], [], ?_, .nil, ?_⟩
  · rw [hnodes, Array.getElem?_push_size]
  · rw [hnodes, Array.size_push, List.range_succ, List.nil_append]
    exact (List.perm_append_singleton _ _).symm

/-- Closing that node again leaves what was there before. -/
theorem Extends.close_of_stack_eq_nil {a a' : Arena} (hstack : a.stack = []) {rule : Rule}
    {first : Nat} (h : Extends a.nodes.size (a.enter (.opened rule first [])) a')
    (last : Option Nat) : Extends a.nodes.size a (a'.close a.nodes.size last) := by
  have hnodes : (a.enter (.opened rule first [])).nodes = a.nodes.push (.opened rule first []) := by
    rw [enter, add, modifyTop, hstack]
  have hsize := h.size
  rw [hnodes, Array.size_push] at hsize
  refine ⟨?_, ?_, fun j hj hne => ?_, fun n hn => ?_⟩
  · rw [close, h.stack]
    rfl
  · rw [close, Array.size_modify]
    omega
  · rw [close, Array.getElem?_modify, if_neg (Ne.symm hne), h.frame j ?_ hne, hnodes,
      Array.getElem?_push, if_neg hne]
    rw [hnodes, Array.size_push]
    omega
  · rw [Array.getElem?_eq_none (Nat.le_refl _)] at hn
    cases hn

end Arena

namespace Grammar

/-! ### The states of a run -/

section Passes

variable {φ β : Type} [Builder β]

/-- The states that a run goes through, each with the reaction to errors at that
moment: where the parts of the program begin and end, and each step of skipping the
rest of a statement. -/
inductive Passes (c : Context) (rules : φ → Program φ) :
    (fuel : Nat) → Reaction → Program φ → State β → Reaction → State β → Prop
  | before {fuel : Nat} {r : Reaction} {p : Program φ} {s : State β} :
      Passes c rules fuel r p s r s
  | after {fuel : Nat} {r : Reaction} {p : Program φ} {s : State β} :
      Passes c rules fuel r p s r (run c rules fuel r p s).state
  | seqLeft {fuel : Nat} {r r' : Reaction} {p q : Program φ} {s s' : State β} :
      Passes c rules (fuel + 1) r p s r' s' → Passes c rules (fuel + 1) r (.seq p q) s r' s'
  | seqRight {fuel : Nat} {r r' : Reaction} {p q : Program φ} {s s₁ s' : State β} :
      run c rules (fuel + 1) r p s = .finished s₁ → Passes c rules (fuel + 1) r q s₁ r' s' →
        Passes c rules (fuel + 1) r (.seq p q) s r' s'
  | condTrue {fuel : Nat} {r r' : Reaction} {t : Test} {p q : Program φ} {s s' : State β}
      {expected : List TokenKind} :
      t.eval c s.ahead s.expected = (true, expected) →
        Passes c rules (fuel + 1) r p { s with expected } r' s' →
          Passes c rules (fuel + 1) r (.cond t p q) s r' s'
  | condFalse {fuel : Nat} {r r' : Reaction} {t : Test} {p q : Program φ} {s s' : State β}
      {expected : List TokenKind} :
      t.eval c s.ahead s.expected = (false, expected) →
        Passes c rules (fuel + 1) r q { s with expected } r' s' →
          Passes c rules (fuel + 1) r (.cond t p q) s r' s'
  | loopBody {fuel : Nat} {r r' : Reaction} {t : Test} {p : Program φ} {s s' : State β}
      {expected : List TokenKind} :
      t.eval c s.ahead s.expected = (true, expected) →
        Passes c rules (fuel + 1) r p { s with expected } r' s' →
          Passes c rules (fuel + 1) r (.loop t p) s r' s'
  | loopNext {fuel : Nat} {r r' : Reaction} {t : Test} {p : Program φ} {s s₁ s' : State β}
      {expected : List TokenKind} :
      t.eval c s.ahead s.expected = (true, expected) →
        run c rules (fuel + 1) r p { s with expected } = .finished s₁ →
          Passes c rules fuel r (.loop t p) s₁ r' s' →
            Passes c rules (fuel + 1) r (.loop t p) s r' s'
  | node {fuel : Nat} {r r' : Reaction} {rule : Rule} {p : Program φ} {s s' : State β} :
      Passes c rules (fuel + 1) r p (s.enter c rule) r' s' →
        Passes c rules (fuel + 1) r (.node rule p) s r' s'
  | wrap {fuel : Nat} {r r' : Reaction} {rule : Rule} {p : Program φ} {s s' : State β} :
      Passes c rules (fuel + 1) r p (s.enterAround c rule) r' s' →
        Passes c rules (fuel + 1) r (.wrap rule p) s r' s'
  | attempt {fuel : Nat} {r r' : Reaction} {p q : Program φ} {s s' : State β} :
      Passes c rules (fuel + 1) .backtrack p s r' s' →
        Passes c rules (fuel + 1) r (.attempt p q) s r' s'
  | attemptUndone {fuel : Nat} {r r' : Reaction} {p q : Program φ} {s s₁ s' : State β}
      {why : Abort} :
      run c rules (fuel + 1) .backtrack p s = .aborted why s₁ →
        Passes c rules (fuel + 1) r q (s.undo s₁) r' s' →
          Passes c rules (fuel + 1) r (.attempt p q) s r' s'
  | resume {fuel : Nat} {r r' : Reaction} {p : Program φ} {s s' : State β} :
      Passes c rules (fuel + 1) r p s r' s' → Passes c rules (fuel + 1) r (.resume p) s r' s'
  | skipping {fuel : Nat} {r : Reaction} {p : Program φ} {s s₁ : State β} {n : Nat} :
      run c rules (fuel + 1) r p s = .aborted .resync s₁ →
        Passes c rules (fuel + 1) r (.resume p) s r (State.skipUpTo c n s₁)
  | call {fuel : Nat} {r r' : Reaction} {phrase : φ} {s s' : State β} :
      Passes c rules fuel r (rules phrase) s r' s' →
        Passes c rules (fuel + 1) r (.call phrase) s r' s'

end Passes

/-! ### Inside an open node -/

/-- A node is open whose parts are stored. -/
def State.Inside (s : State Arena) : Prop :=
  ∃ id outside ts, s.built.Open id outside ts

section Inside

variable {φ : Type} {c : Context} {rules : φ → Program φ} {s s' : State Arena} {id : Nat}
  {outside : List Nat} {ts : List Tree} {fuel : Nat} {r r' : Reaction} {p : Program φ}

/-- A run that starts in an open node ends in that node, and below it nothing changes. -/
theorem run_open (fuel : Nat) (r : Reaction) (p : Program φ) (h : s.built.Open id outside ts) :
    (∃ ts', (run c rules fuel r p s).state.built.Open id outside ts') ∧
      s.built.Extends id (run c rules fuel r p s).state.built := by
  obtain ⟨ahead, expected, last, built, reports⟩ := s
  have halike := run_within c rules fuel p r id outside built _ _
    (.mk ahead expected last reports ⟨h, .refl _ _⟩)
  generalize run c rules fuel r p ⟨ahead, expected, last, ts, reports⟩ = o at halike
  generalize run c rules fuel r p ⟨ahead, expected, last, built, reports⟩ = o' at halike ⊢
  cases halike with
  | finished hs =>
      cases hs with
      | mk _ _ _ _ hs => exact ⟨⟨_, hs.1⟩, hs.2⟩
  | aborted why hs =>
      cases hs with
      | mk _ _ _ _ hs => exact ⟨⟨_, hs.1⟩, hs.2⟩

/-- An attempt is taken back when it only added to the arena and reported nothing. -/
theorem undo_eq_self (hundo : Arena.undo s.built s'.built = s.built)
    (hreports : s'.reports = s.reports) : s.undo s' = s := by
  obtain ⟨ahead, expected, last, built, reports⟩ := s
  rw [State.undo, hreports]
  exact congrArg (State.mk ahead expected last · reports) hundo

theorem State.Inside.of_run (h : s.Inside) {o : Outcome Arena}
    (ho : run c rules fuel r p s = o) : o.state.Inside := by
  obtain ⟨id, outside, ts, hopen⟩ := h
  obtain ⟨⟨ts', hopen'⟩, -⟩ := run_open (c := c) fuel r p hopen
  exact ⟨id, outside, ts', ho ▸ hopen'⟩

theorem State.Inside.skipUpTo (h : s.Inside) (n : Nat) : (State.skipUpTo c n s).Inside := by
  obtain ⟨ahead, expected, last, built, reports⟩ := s
  obtain ⟨id, outside, ts, hopen⟩ := h
  have hskip := skipUpTo_within c n _ _ (.mk ahead expected last reports ⟨hopen, .refl _ _⟩)
  generalize State.skipUpTo c n ⟨ahead, expected, last, ts, reports⟩ = skipped at hskip
  generalize State.skipUpTo c n ⟨ahead, expected, last, built, reports⟩ = skipped' at hskip ⊢
  cases hskip with
  | mk _ _ _ _ hs => exact ⟨_, _, _, hs.1⟩

/-- In an open node a failed attempt is taken back. -/
theorem State.Inside.undo_eq_self (h : s.Inside) {why : Abort}
    (ho : run c rules fuel .backtrack p s = .aborted why s') : s.undo s' = s := by
  obtain ⟨id, outside, ts, hopen⟩ := h
  obtain ⟨-, hext⟩ := run_open (c := c) fuel .backtrack p hopen
  obtain ⟨n, ids, hn, -, -⟩ := hopen.stored
  have hreports := (run_follows c rules fuel .backtrack p s).silent (by decide)
  rw [ho] at hext hreports
  exact Grammar.undo_eq_self (hext.undo hopen.top (Array.getElem?_eq_some_iff.1 hn).1) hreports

/-- A run that starts in an open node only passes through states with an open node. -/
theorem Passes.inside (h : Passes c rules fuel r p s r' s') : s.Inside → s'.Inside := by
  induction h with
  | before => exact fun hs => hs
  | after => exact fun hs => hs.of_run rfl
  | seqLeft _ ih => exact ih
  | seqRight hp _ ih => exact fun hs => ih (hs.of_run hp)
  | condTrue _ _ ih => exact ih
  | condFalse _ _ ih => exact ih
  | loopBody _ _ ih => exact ih
  | @loopNext _ _ _ _ _ s _ _ expected _ hp _ ih =>
      intro hs
      have hnoted : State.Inside { s with expected } := hs
      exact ih (hnoted.of_run hp)
  | @node _ _ _ rule _ s _ _ ih =>
      rintro ⟨id, outside, ts, hopen⟩
      obtain ⟨inner, hinner, -⟩ := hopen.enter rule (s.current _).index
      exact ih ⟨_, inner, _, hinner⟩
  | @wrap _ _ _ rule _ s _ _ ih =>
      rintro ⟨id, outside, ts, hopen⟩
      obtain ⟨inner, hinner, -⟩ := hopen.enterAround rule (s.current _).index
      exact ih ⟨_, inner, _, hinner⟩
  | attempt _ ih => exact ih
  | attemptUndone hp _ ih =>
      -- the second alternative starts in the very state of the attempt
      intro hs
      rw [hs.undo_eq_self hp] at ih
      exact ih hs
  | resume _ ih => exact ih
  | @skipping _ _ _ _ _ n hp =>
      exact fun hs => (hs.of_run hp).skipUpTo n
  | call _ ih => exact ih

end Inside

/-! ### Around the root -/

/-- No node is open, and one tree is built. -/
def State.Rooted (s : State Arena) : Prop :=
  ∃ t, s.built.Rooted t

/-- A node is open whose parts are stored, or none is open. -/
def State.Sound (s : State Arena) : Prop :=
  s.built.stack = [] ∨ s.Inside

section Root

variable {φ : Type} {c : Context} {rules : φ → Program φ} {s s' : State Arena} {fuel : Nat}
  {r r' : Reaction} {p : Program φ}

theorem State.Rooted.sound (h : s.Rooted) : s.Sound := by
  obtain ⟨t, ht⟩ := h
  exact .inl ht.stack

theorem OutcomeRel.rooted {o : Outcome (List Tree)} {o' : Outcome Arena}
    (h : OutcomeRel RootBuilt o o') : o'.state.Rooted := by
  cases h with
  | finished h =>
      cases h with
      | mk _ _ _ _ h => exact h.imp fun _ ht => ht.2
  | aborted why h =>
      cases h with
      | mk _ _ _ _ h => exact h.imp fun _ ht => ht.2

/-- A program that only builds around the root leaves one root. -/
theorem State.Rooted.of_run (h : s.Rooted) (hp : p.wraps = true) {o : Outcome Arena}
    (ho : run c rules fuel r p s = o) : o.state.Rooted := by
  obtain ⟨ahead, expected, last, built, reports⟩ := s
  obtain ⟨t, ht⟩ := h
  rw [← ho]
  exact (run_wraps c rules fuel r p _ _ hp (.mk ahead expected last reports ⟨t, rfl, ht⟩)).rooted

/-- A program that builds a root does so however it ends. -/
theorem State.rooted_of_run {depth : Nat} (h : s.built = .empty)
    (hp : p.rootsWithin rules depth = true) (hdepth : depth ≤ fuel) {o : Outcome Arena}
    (ho : run c rules fuel r p s = o) : o.state.Rooted := by
  obtain ⟨ahead, expected, last, built, reports⟩ := s
  rw [← ho]
  exact (run_roots c rules depth fuel r p _ _ hp hdepth
    (.mk ahead expected last reports ⟨rfl, h⟩)).rooted

/-- A program that only builds around the root passes through sound states. -/
theorem Passes.sound_of_wraps (h : Passes c rules fuel r p s r' s') :
    p.wraps = true → s.Rooted → s'.Sound := by
  induction h with
  | before => exact fun _ hs => hs.sound
  | after => exact fun hp hs => (hs.of_run hp rfl).sound
  | seqLeft _ ih => exact fun hp => ih (Bool.and_eq_true_iff.1 hp).1
  | seqRight hrun _ ih =>
      intro hp hs
      obtain ⟨hleft, hright⟩ := Bool.and_eq_true_iff.1 hp
      exact ih hright (hs.of_run hleft hrun)
  | condTrue _ _ ih => exact fun hp => ih (Bool.and_eq_true_iff.1 hp).1
  | condFalse _ _ ih => exact fun hp => ih (Bool.and_eq_true_iff.1 hp).2
  | loopBody _ _ ih => exact ih
  | @loopNext _ _ _ _ p s _ _ expected _ hrun _ ih =>
      intro hp hs
      have hbody : p.wraps = true := hp
      have hnoted : State.Rooted { s with expected } := hs
      exact ih hp (hnoted.of_run hbody hrun)
  | @wrap _ _ _ rule _ s _ hinner _ =>
      -- inside the node around the root a node is open
      rintro - ⟨t, ht⟩
      exact .inr (hinner.inside ⟨_, _, _, (ht.enterAround rule (s.current _).index).1⟩)
  | node => exact fun hp => absurd hp Bool.false_ne_true
  | attempt => exact fun hp => absurd hp Bool.false_ne_true
  | attemptUndone => exact fun hp => absurd hp Bool.false_ne_true
  | resume => exact fun hp => absurd hp Bool.false_ne_true
  | skipping => exact fun hp => absurd hp Bool.false_ne_true
  | call => exact fun hp => absurd hp Bool.false_ne_true

/-- A program that builds a root passes through sound states. -/
theorem Passes.sound_of_roots (h : Passes c rules fuel r p s r' s') :
    ∀ depth, p.rootsWithin rules (depth + 1) = true → depth < fuel → s.built = .empty →
      s'.Sound := by
  induction h with
  | before =>
      intro depth _ _ hs
      exact .inl (by rw [hs]; rfl)
  | after => exact fun depth hp hdepth hs => (State.rooted_of_run hs hp hdepth rfl).sound
  | seqLeft _ ih => exact fun depth hp => ih depth (Bool.and_eq_true_iff.1 hp).1
  | seqRight hrun hrest _ =>
      intro depth hp hdepth hs
      obtain ⟨hleft, hright⟩ := Bool.and_eq_true_iff.1 hp
      have hroots : Program.rootsWithin rules (depth + 1) _ = true := hleft
      -- behind the part that builds the root only nodes around it are built
      exact hrest.sound_of_wraps hright (State.rooted_of_run hs hroots hdepth hrun)
  | condTrue _ _ ih => exact fun depth hp => ih depth (Bool.and_eq_true_iff.1 hp).1
  | condFalse _ _ ih => exact fun depth hp => ih depth (Bool.and_eq_true_iff.1 hp).2
  | @node _ _ _ rule _ s _ hinner _ =>
      intro depth _ _ hs
      have hopen := (Arena.open_root rule (s.current c).index).1
      rw [← hs] at hopen
      exact .inr (hinner.inside ⟨_, _, _, hopen⟩)
  | call _ ih =>
      rintro (_ | depth) hp hdepth
      · cases hp
      · exact ih depth hp (Nat.lt_of_succ_lt_succ hdepth)
  | loopBody => exact fun _ hp => absurd hp Bool.false_ne_true
  | loopNext => exact fun _ hp => absurd hp Bool.false_ne_true
  | wrap => exact fun _ hp => absurd hp Bool.false_ne_true
  | attempt => exact fun _ hp => absurd hp Bool.false_ne_true
  | attemptUndone => exact fun _ hp => absurd hp Bool.false_ne_true
  | resume => exact fun _ hp => absurd hp Bool.false_ne_true
  | skipping => exact fun _ hp => absurd hp Bool.false_ne_true

/-- Without an open node an attempt to build one is taken back. -/
theorem undo_eq_self_of_stack_eq_nil {phrase : φ} {rule : Rule} {body : Program φ} {why : Abort}
    (hphrase : rules phrase = .node rule body) (hstack : s.built.stack = [])
    (ho : run c rules fuel .backtrack (.call phrase) s = .aborted why s') : s.undo s' = s := by
  have hreports := (run_follows c rules fuel .backtrack (.call phrase) s).silent (by decide)
  rw [ho] at hreports
  refine undo_eq_self (Arena.Extends.undo_of_stack_eq_nil hstack ?_) hreports
  -- a run that cannot even enter the phrase has built nothing
  rcases fuel with _ | _ | fuel
  · cases ho
    exact .refl _ _
  · cases ho
    exact .refl _ _
  · rw [run, exec, run, hphrase, exec] at ho
    have hopen := Arena.open_enter_of_stack_eq_nil hstack rule (s.current c).index
    have hext : (s.enter c rule).built.Extends _
        (run c rules (fuel + 1) .backtrack body (s.enter c rule)).state.built :=
      (run_open (fuel + 1) .backtrack body hopen).2
    rw [run] at hext
    generalize exec c rules (run c rules fuel) .backtrack body (s.enter c rule) = o at ho hext
    cases o with
    | finished s₁ => cases ho
    | aborted why s₁ =>
        cases ho
        exact hext.close_of_stack_eq_nil hstack _

end Root

/-! ### Attempts -/

/-- In every state that a parse passes through, a derived table that is tried and does
not fit leaves no trace: taking it back restores the whole state, the arena with its
open nodes included, nothing was reported, and reading goes on with the second
alternative as if it had been the only one. -/
theorem attempt_leaves_no_trace (o : Options) (rule : StartRule) (tokens : List Token)
    {r : Reaction} {s s' : State Arena} {fuel : Nat} {why : Abort}
    (hs : Passes (contextOf o tokens) grammar (fuelFor tokens) o.strategy.reaction rule.program
      (State.initial tokens) r s)
    (hfail : run (contextOf o tokens) grammar fuel .backtrack (.call .derivedTable) s =
      .aborted why s') :
    s.undo s' = s ∧ s'.reports = s.reports ∧
      (why ≠ .exhausted → ∀ q : Fragment,
        run (contextOf o tokens) grammar fuel r (.attempt (.call .derivedTable) q) s =
          run (contextOf o tokens) grammar fuel r q s) := by
  have hsound : s.Sound := by
    refine hs.sound_of_roots 2 (program_roots rule) ?_ rfl
    rw [fuelFor, callDepth]
    omega
  have hundo : s.undo s' = s := by
    rcases hsound with hstack | hinside
    · exact undo_eq_self_of_stack_eq_nil rfl hstack hfail
    · exact hinside.undo_eq_self hfail
  have hreports := (run_follows (contextOf o tokens) grammar fuel .backtrack
    (.call .derivedTable) s).silent (by decide)
  rw [hfail] at hreports
  refine ⟨hundo, hreports, fun hwhy q => ?_⟩
  cases fuel with
  | zero =>
      cases hfail
      exact absurd rfl hwhy
  | succ fuel =>
      rw [run] at hfail ⊢
      rw [exec, hfail]
      cases why with
      | exhausted => exact absurd rfl hwhy
      | cancelled token => simp only [hundo]; rfl
      | resync => simp only [hundo]; rfl
      | backtrack => simp only [hundo]; rfl

/-- `UPDATE((t))`: two parentheses, but no query inside. -/
def updateOfGroup : List Token :=
  [⟨.keyword .UPDATE, .default, "UPDATE", 0, 5, 1, 0, 0⟩,
   ⟨.openParen, .default, "(", 6, 6, 1, 6, 1⟩,
   ⟨.openParen, .default, "(", 7, 7, 1, 7, 2⟩,
   ⟨.identifier, .default, "t", 8, 8, 1, 8, 3⟩,
   ⟨.closeParen, .default, ")", 9, 9, 1, 9, 4⟩,
   ⟨.closeParen, .default, ")", 10, 10, 1, 10, 5⟩,
   .ending ⟨11, 1, 11⟩ 6]

/-- The table in parentheses is first tried as a derived table, which opens new nodes
before it fails. -/
theorem attempt_leaves_no_trace_group :
    let options : Options := ⟨⟨80000⟩, .empty, .speculative, .recover⟩
    let c := contextOf options updateOfGroup
    ∃ s s' : State Arena,
      Passes c grammar (fuelFor updateOfGroup) .recover (.call .simpleStatement)
          (State.initial updateOfGroup) .recover s ∧
        run c grammar 16 .backtrack (.call .derivedTable) s = .aborted .backtrack s' ∧
        s.built.nodes.size < s'.built.nodes.size ∧
        s.undo s' = s ∧ s'.reports = s.reports ∧
        (Abort.backtrack ≠ .exhausted → ∀ q : Fragment,
          run c grammar 16 .recover (.attempt (.call .derivedTable) q) s =
            run c grammar 16 .recover q s) := by
  intro options c
  have htried : ∃ s s' : State Arena,
      Passes c grammar 576 .recover (.call .simpleStatement) (State.initial updateOfGroup)
          .recover s ∧
        run c grammar 16 .backtrack (.call .derivedTable) s = .aborted .backtrack s' ∧
        s.built.nodes.size < s'.built.nodes.size := by
    refine ⟨?s, ?tried, .call (.node ?reached), ?failed, ?grown⟩
    case reached =>
      -- the statement, up to its tables
      refine .condFalse rfl (.condFalse rfl (.condFalse rfl (.condTrue rfl ?_)))
      refine .call (.node (.seqRight rfl (.seqRight rfl (.seqRight rfl (.seqLeft ?_)))))
      -- the first of the tables
      refine .call (.node (.seqLeft (.node (.seqLeft ?_))))
      refine .call (.node (.condFalse rfl (.condFalse rfl (.condTrue rfl ?_))))
      exact Passes.before (β := Arena)
    case failed => rfl
    case grown => decide
  obtain ⟨s, s', hs, hfail, hgrown⟩ := htried
  exact ⟨s, s', hs, hfail, hgrown,
    attempt_leaves_no_trace options .simpleStatement updateOfGroup hs hfail⟩

end Grammar

end MySqlAnalysis
