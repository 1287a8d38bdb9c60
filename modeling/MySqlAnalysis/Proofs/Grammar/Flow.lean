import MySqlAnalysis.Grammar.Parse
import MySqlAnalysis.Proofs.Grammar.Facts
import MySqlAnalysis.Proofs.Grammar.Reading

/-!
# The flow of a program

A program can be checked without running it. Its flow collects what decisions
reveal about the tokens ahead and tells whether a token is only read where it
cannot be the end of the input, whether every round of a loop reads a token, and
how many calls can lie inside each other before a token is read. A phrase is
checked once, against a contract that stands for its body wherever it is called.

A checked program does on every input what its flow says (`run_flows`). It only
moves tokens that do not end the input from the tokens ahead to the leaves of
the trees, in order, and it never reaches the bound on the depth of calls if
that is `callDepth` for each token ahead and the depth of the flow.
-/

set_option autoImplicit false

namespace MySqlAnalysis.Grammar

/-! ### Flows and contracts -/

/-- What is known when a program finishes. -/
structure Ending where
  facts : Facts
  /-- At least one token was read. -/
  moved : Bool

/-- What is known when one of two programs finishes. -/
def Ending.merge : Option Ending → Option Ending → Option Ending
  | none, e => e
  | e, none => e
  | some a, some b => some ⟨a.facts.filter b.facts.contains, a.moved && b.moved⟩

/-- What a check of a program finds. -/
structure Flow where
  /-- Tokens are only read where the input does not end, and every round of a
  loop reads one. -/
  ok : Bool
  /-- A bound for the calls inside each other before a token is read. -/
  depth : Nat
  /-- Absent when the program cannot finish. -/
  ending : Option Ending

/-- The flow of a program that is not reached or does not finish. -/
def Flow.dead : Flow := ⟨true, 0, none⟩

/-- The flow of a branch, which is not reached when the facts contradict each other. -/
def Flow.reached (k : Facts) (f : Flow) : Flow := if k.impossible then .dead else f

/-- What a phrase promises, and what it relies on when it is called. -/
structure Contract where
  /-- It is only called where the input does not end. -/
  inside : Bool
  /-- It reads at least one token when it finishes. -/
  moves : Bool
  depth : Nat

namespace Contract

/-- What the body of a phrase can rely on. -/
def facts (k : Contract) : Facts :=
  if k.inside then [⟨0, false, [.eof]⟩] else []

/-- Whether the flow of a body keeps the promises. -/
def allows (k : Contract) (f : Flow) : Bool :=
  f.ok && f.depth ≤ k.depth && f.ending.all fun e => !k.moves || e.moved

end Contract

variable {φ : Type}

/-- The flow of a program at a place where the facts hold. Phrases without a
contract must not be called. -/
def Program.flow (contracts : φ → Option Contract) : Program φ → Facts → Flow
  | done, k => ⟨true, 0, some ⟨k, false⟩⟩
  | advance, k => ⟨k.rulesOut 0 .eof, 0, some ⟨k.shift, true⟩⟩
  | expect kind, _ =>
    ⟨kind != .eof, 0, some ⟨[], kind != .closeParen && kind != .closeBrace⟩⟩
  | refuse _, _ => .dead
  | seq p q, k =>
    let f := p.flow contracts k
    match f.ending with
    | none => f
    | some e =>
      let g := q.flow contracts e.facts
      ⟨f.ok && g.ok, max f.depth (if e.moved then 0 else g.depth),
        g.ending.map fun e' => ⟨e'.facts, e.moved || e'.moved⟩⟩
  | cond t p q, k =>
    let f := Flow.reached (t.facts true ++ k) (p.flow contracts (t.facts true ++ k))
    let g := Flow.reached (t.facts false ++ k) (q.flow contracts (t.facts false ++ k))
    ⟨f.ok && g.ok, max f.depth g.depth, Ending.merge f.ending g.ending⟩
  | loop t p, _ =>
    let f := Flow.reached (t.facts true) (p.flow contracts (t.facts true))
    ⟨f.ok && f.ending.all Ending.moved, f.depth, some ⟨t.facts false, false⟩⟩
  | node _ p, k => p.flow contracts k
  | wrap _ p, k => p.flow contracts k
  | attempt p q, k =>
    let f := p.flow contracts k
    let g := q.flow contracts k
    ⟨f.ok && g.ok, max f.depth g.depth, Ending.merge f.ending g.ending⟩
  | resume p, k =>
    let f := p.flow contracts k
    ⟨f.ok, f.depth,
      Ending.merge f.ending
        (some ⟨Look.atStatementEnd.facts true, k.rulesOut 0 .semicolon && k.rulesOut 0 .eof⟩)⟩
  | call phrase, k =>
    match contracts phrase with
    | none => ⟨false, 0, none⟩
    | some contract =>
      ⟨!contract.inside || k.rulesOut 0 .eof, contract.depth + 1, some ⟨[], contract.moves⟩⟩

theorem Flow.reached_depth_le (k : Facts) (f : Flow) : (f.reached k).depth ≤ f.depth := by
  unfold reached
  split
  · exact Nat.zero_le _
  · exact le_rfl

/-- A branch is reached where its facts hold. -/
theorem Flow.reached_of_hold {c : Context} {ahead : List Token} {k : Facts}
    (hk : k.Hold c ahead) (f : Flow) : f.reached k = f :=
  if_neg fun h => Facts.not_hold_of_impossible h hk

/-- No flow is deeper than the deepest call. -/
theorem Program.flow_depth_le {contracts : φ → Option Contract} {bound : Nat}
    (h : ∀ phrase k, contracts phrase = some k → k.depth < bound) (p : Program φ) :
    ∀ k : Facts, (p.flow contracts k).depth ≤ bound := by
  induction p with
  | seq p q ihp ihq =>
      intro k
      rw [flow]
      split
      case h_1 => exact ihp k
      case h_2 e he =>
        refine max_le (ihp k) ?_
        split
        · exact Nat.zero_le _
        · exact ihq e.facts
  | cond t p q ihp ihq =>
      intro k
      refine max_le ?_ ?_
      · exact (Flow.reached_depth_le _ _).trans (ihp _)
      · exact (Flow.reached_depth_le _ _).trans (ihq _)
  | loop t p ih =>
      intro k
      exact (Flow.reached_depth_le _ _).trans (ih _)
  | node rule p ih => exact ih
  | wrap rule p ih => exact ih
  | attempt p q ihp ihq => exact fun k => max_le (ihp k) (ihq k)
  | resume p ih => exact ih
  | call phrase =>
      intro k
      rw [flow]
      split
      case h_1 => exact Nat.zero_le _
      case h_2 contract hc => exact h phrase contract hc
  | _ => exact fun k => Nat.zero_le _

/-! ### What a flow says about a run -/

/-- What is known when a program that began in the state `s` finishes is true
in the state `s'`. -/
structure Ending.Holds (c : Context) (s s' : State (List Tree)) (e : Ending) : Prop where
  facts : e.facts.Hold c s'.ahead
  moved : e.moved = true → s'.ahead.length < s.ahead.length

/-- The outcome of a run from the state `s` is as the flow says. -/
structure Flows (c : Context) (f : Flow) (s : State (List Tree)) (o : Outcome (List Tree)) :
    Prop where
  reads : s.Reads o.state
  completes : ∀ s', o ≠ .aborted .exhausted s'
  ends : ∀ s', o = .finished s' → ∃ e ∈ f.ending, e.Holds c s s'

theorem Ending.merge_left {c : Context} {s s' : State (List Tree)} {a : Ending}
    (b : Option Ending) (h : a.Holds c s s') : ∃ e ∈ merge (some a) b, e.Holds c s s' := by
  cases b with
  | none => exact ⟨a, rfl, h⟩
  | some b =>
      refine ⟨_, rfl, h.facts.mono (List.filter_subset_self _), ?_⟩
      intro hm
      exact h.moved (Bool.and_eq_true_iff.1 hm).1

theorem Ending.merge_right {c : Context} {s s' : State (List Tree)} {b : Ending}
    (a : Option Ending) (h : b.Holds c s s') : ∃ e ∈ merge a (some b), e.Holds c s s' := by
  cases a with
  | none => exact ⟨b, rfl, h⟩
  | some a =>
      refine ⟨_, rfl, ?_, ?_⟩
      · intro f hf
        have hmem := (List.mem_filter.1 hf).2
        exact h.facts f (List.contains_iff_mem.1 hmem)
      · intro hm
        exact h.moved (Bool.and_eq_true_iff.1 hm).2

namespace Flows

variable {c : Context} {f g : Flow} {s : State (List Tree)} {o : Outcome (List Tree)}

theorem finished {s' : State (List Tree)} {e : Ending} (hreads : s.Reads s')
    (he : e ∈ f.ending) (hholds : e.Holds c s s') : Flows c f s (.finished s') where
  reads := hreads
  completes := by
    intro s'' ho
    cases ho
  ends := by
    rintro s'' ⟨⟩
    exact ⟨e, he, hholds⟩

theorem aborted {s' : State (List Tree)} {why : Abort} (hreads : s.Reads s')
    (hwhy : why ≠ .exhausted) : Flows c f s (.aborted why s') where
  reads := hreads
  completes := by
    rintro s'' ⟨⟩
    exact hwhy rfl
  ends := by
    intro s'' ho
    cases ho

/-- The same run from another state with the same tokens and leaves. -/
theorem of_reads_eq {s₀ : State (List Tree)} (h : Flows c f s o) (hahead : s₀.ahead = s.ahead)
    (hbuilt : s₀.built = s.built) : Flows c f s₀ o where
  reads := (State.Reads.of_eq hahead.symm hbuilt.symm).trans h.reads
  completes := h.completes
  ends s' ho := by
    obtain ⟨e, he, hholds⟩ := h.ends s' ho
    exact ⟨e, he, hholds.facts, fun hm => hahead ▸ hholds.moved hm⟩

/-- Finishing in one of two ways. -/
theorem merge_left (h : Flows c f s o) {ok : Bool} {depth : Nat} (b : Option Ending) :
    Flows c ⟨ok, depth, Ending.merge f.ending b⟩ s o where
  reads := h.reads
  completes := h.completes
  ends s' ho := by
    obtain ⟨e, he, hholds⟩ := h.ends s' ho
    rw [Option.mem_def.1 he]
    exact Ending.merge_left b hholds

theorem merge_right (h : Flows c f s o) {ok : Bool} {depth : Nat} (a : Option Ending) :
    Flows c ⟨ok, depth, Ending.merge a f.ending⟩ s o where
  reads := h.reads
  completes := h.completes
  ends s' ho := by
    obtain ⟨e, he, hholds⟩ := h.ends s' ho
    rw [Option.mem_def.1 he]
    exact Ending.merge_right a hholds

/-- Going on after something that read. -/
theorem after {s₀ : State (List Tree)} {moved ok : Bool} {depth : Nat} (hreads : s₀.Reads s)
    (hmoved : moved = true → s.ahead.length < s₀.ahead.length) (h : Flows c f s o) :
    Flows c ⟨ok, depth, f.ending.map fun e => ⟨e.facts, moved || e.moved⟩⟩ s₀ o where
  reads := hreads.trans h.reads
  completes := h.completes
  ends s' ho := by
    obtain ⟨e, he, hholds⟩ := h.ends s' ho
    have hle : s'.ahead.length ≤ s.ahead.length := by
      have hle := h.reads.length_le
      rwa [ho] at hle
    refine ⟨⟨e.facts, moved || e.moved⟩, Option.mem_map_of_mem _ he, hholds.facts, ?_⟩
    intro hm
    rcases Bool.or_eq_true_iff.1 hm with hm | hm
    · exact lt_of_le_of_lt hle (hmoved hm)
    · exact lt_of_lt_of_le (hholds.moved hm) hreads.length_le

/-- A node is closed around what was read inside it. -/
theorem map {s₀ : State (List Tree)} {close : State (List Tree) → State (List Tree)}
    (h : Flows c f s o) (hahead : s.ahead = s₀.ahead) (hclose : ∀ s', (close s').ahead = s'.ahead)
    (hreads : ∀ s', s.Reads s' → s₀.Reads (close s')) : Flows c f s₀ (o.map close) := by
  cases o with
  | finished s' =>
      obtain ⟨e, he, hholds⟩ := h.ends s' rfl
      refine .finished (hreads s' h.reads) he ⟨?_, ?_⟩
      · rw [hclose s']
        exact hholds.facts
      · rw [hclose s', ← hahead]
        exact hholds.moved
  | aborted why s' =>
      refine .aborted (hreads s' h.reads) ?_
      rintro rfl
      exact h.completes s' rfl

end Flows

/-! ### Single moves -/

section Moves

variable {c : Context} {s : State (List Tree)} {k : Facts}

theorem advance_flows (contracts : φ → Option Contract) (he : c.Ended s.ahead)
    (hk : k.Hold c s.ahead) (hok : (Program.advance.flow contracts k).ok = true) :
    Flows c (Program.advance.flow contracts k) s (.finished (s.consume c)) := by
  have hne : c.kindAt s.ahead 0 ≠ .eof := Facts.kindAt_ne_of_rulesOut hk hok
  obtain ⟨t, ts, hahead, ht⟩ := he.cons_of_kindAt_ne hne
  obtain ⟨hts, hreads⟩ := State.consume_reads (c := c) hahead ht
  refine .finished hreads rfl ⟨?_, fun _ => ?_⟩
  · have hshift := hk.shift
    rw [hahead] at hshift
    rw [hts]
    exact hshift
  · rw [hts, hahead, List.length_cons]
    exact Nat.lt_succ_self _

theorem fail_flows (r : Reaction) (cause : Cause) {f : Flow} :
    Flows c f s (s.fail c r cause) := by
  cases r with
  | bail => exact .aborted (.refl s) fun h => by cases h
  | recover => exact .aborted (.of_eq rfl rfl) fun h => by cases h
  | backtrack => exact .aborted (.refl s) fun h => by cases h

theorem refuse_flows (r : Reaction) (why : Refusal) {f : Flow} :
    Flows c f s (s.refuse c r why) := by
  cases why with
  | mismatch => exact fail_flows r _
  | noAlternative starts => exact Flows.of_reads_eq (fail_flows r _) rfl rfl
  | gate rule version => exact fail_flows r _

/-- A required token is found, or the token before it is deleted, or it is a
closing one and inserted; only the last does not read. -/
theorem expect_flows (contracts : φ → Option Contract) (r : Reaction) (kind : TokenKind)
    (he : c.Ended s.ahead) (hok : ((Program.expect kind).flow contracts k).ok = true) :
    Flows c ((Program.expect kind).flow contracts k) s (s.expect c r kind) := by
  have hkind : kind ≠ .eof := bne_iff_ne.1 hok
  unfold State.expect
  dsimp only
  split_ifs with hfound hdelete hinsert
  · have hne : c.kindAt s.ahead 0 ≠ .eof := fun h => hkind (beq_iff_eq.1 hfound ▸ h)
    obtain ⟨t, ts, hahead, ht⟩ := he.cons_of_kindAt_ne hne
    obtain ⟨hts, hreads⟩ :=
      State.consume_reads (s := { s with expected := noteKind s.expected kind }) (c := c)
        hahead ht
    refine .finished ((State.Reads.of_eq rfl rfl).trans hreads) rfl ⟨Facts.hold_nil, fun _ => ?_⟩
    rw [hts, hahead, List.length_cons]
    exact Nat.lt_succ_self _
  · -- the token in front of the required one is deleted
    have hfound' := beq_iff_eq.1 (Bool.and_eq_true_iff.1 hdelete).2
    have hne : c.kindAt s.ahead 1 ≠ .eof := fun h => hkind (hfound' ▸ h)
    obtain ⟨t, u, ts, hahead, ht, hu⟩ := he.cons_cons_of_kindAt_ne hne
    obtain ⟨hskip, hreads⟩ :=
      State.skip_reads
        (s := State.report { s with expected := noteKind s.expected kind } c .extraneous)
        (c := c) hahead ht
    obtain ⟨hts, hreads'⟩ := State.consume_reads (c := c) hskip hu
    refine .finished ((State.Reads.of_eq rfl rfl).trans (hreads.trans hreads')) rfl
      ⟨Facts.hold_nil, fun _ => ?_⟩
    rw [hts, hahead, List.length_cons, List.length_cons]
    omega
  · -- a token that may be inserted is none that the flow counts as read
    refine .finished (.of_eq rfl rfl) rfl ⟨Facts.hold_nil, fun hm => ?_⟩
    simp only [Bool.and_eq_true, Bool.or_eq_true, beq_iff_eq, bne_iff_ne] at hinsert hm
    exact absurd hinsert.2 (not_or.2 hm)
  · exact Flows.of_reads_eq (fail_flows r _) rfl rfl

/-- Giving up on a statement reads, unless the statement was already over. -/
theorem skipStatement_ending {s' : State (List Tree)} (he : c.Ended s.ahead)
    (hk : k.Hold c s.ahead) (hreads : s.Reads s') :
    s.Reads (s'.skipStatement c) ∧
      Ending.Holds c s (s'.skipStatement c)
        ⟨Look.atStatementEnd.facts true, k.rulesOut 0 .semicolon && k.rulesOut 0 .eof⟩ := by
  obtain ⟨hskip, hend⟩ := State.skipStatement_reads (hreads.ended he)
  refine ⟨hreads.trans hskip, Look.facts_hold _ true hend, fun hm => ?_⟩
  by_contra hlen
  -- nothing was read, so the statement is over where the facts say it is not
  have hall : (s'.skipStatement c).ahead = s.ahead :=
    (hreads.trans hskip).ahead_eq (Nat.le_of_not_lt hlen)
  rw [hall] at hend
  have hout := Bool.and_eq_true_iff.1 hm
  have hsemi := Facts.kindAt_ne_of_rulesOut hk hout.1
  have heof := Facts.kindAt_ne_of_rulesOut hk hout.2
  rw [Look.atStatementEnd, Look.holds, List.contains_iff_mem] at hend
  simp only [List.mem_cons, List.not_mem_nil, or_false] at hend
  exact hend.elim hsemi heof

end Moves

/-! ### Programs -/

section Programs

variable {c : Context} {rules : φ → Program φ} {contracts : φ → Option Contract}
  {recur : Reaction → Program φ → State (List Tree) → Outcome (List Tree)} {fuel : Nat}

/-- A token that is read makes room for the calls before the next one. -/
theorem callDepth_mul_add_le {m n : Nat} (h : m < n) :
    callDepth * m + callDepth ≤ callDepth * n :=
  Nat.mul_le_mul_left callDepth h

theorem le_of_add_max_le {n a b m : Nat} (h : n + max a b ≤ m) : n + a ≤ m ∧ n + b ≤ m := by
  omega

/-- A checked program is run as its flow says whenever `room` has place for the
calls inside each other: `callDepth` for each token ahead and the depth of the flow. -/
def Keeps (c : Context) (contracts : φ → Option Contract) (room : Nat)
    (go : Reaction → Program φ → State (List Tree) → Outcome (List Tree)) (p : Program φ) : Prop :=
  ∀ (r : Reaction) (k : Facts) (s : State (List Tree)),
    (p.flow contracts k).ok = true → k.Hold c s.ahead → c.Ended s.ahead →
      callDepth * s.ahead.length + (p.flow contracts k).depth ≤ room →
        Flows c (p.flow contracts k) s (go r p s)

theorem exec_flows_seq (hdepth : ∀ phrase k, contracts phrase = some k → k.depth < callDepth)
    {p q : Program φ} (hp : Keeps c contracts fuel (exec c rules recur) p)
    (hq : Keeps c contracts fuel (exec c rules recur) q) :
    Keeps c contracts fuel (exec c rules recur) (.seq p q) := by
  intro r k s hok hk he hfuel
  rw [exec]
  rw [Program.flow] at hok hfuel ⊢
  dsimp only at hok hfuel ⊢
  cases hend : (p.flow contracts k).ending with
  | none =>
      -- the first program does not finish, so the second one plays no part
      simp only [hend] at hok hfuel ⊢
      have hp' := hp r k s hok hk he hfuel
      cases ho : exec c rules recur r p s with
      | finished s' =>
          obtain ⟨e, hmem, -⟩ := hp'.ends s' ho
          rw [hend] at hmem
          cases hmem
      | aborted why s' =>
          rw [ho] at hp'
          exact hp'
  | some e =>
      simp only [hend] at hok hfuel ⊢
      obtain ⟨hokp, hokq⟩ := Bool.and_eq_true_iff.1 hok
      obtain ⟨hfuelp, hfuelq⟩ := le_of_add_max_le hfuel
      have hp' := hp r k s hokp hk he hfuelp
      cases ho : exec c rules recur r p s with
      | aborted why s' =>
          rw [ho] at hp'
          exact .aborted hp'.reads fun h => hp'.completes s' (h ▸ rfl)
      | finished s' =>
          rw [ho] at hp'
          obtain ⟨e', hmem, hholds⟩ := hp'.ends s' rfl
          rw [hend, Option.mem_some] at hmem
          subst hmem
          -- a token that was read makes room for every flow, however deep
          have hroom : callDepth * s'.ahead.length + (q.flow contracts e.facts).depth ≤ fuel := by
            have hle := hp'.reads.length_le
            rw [Outcome.state_finished] at hle
            cases hm : e.moved with
            | true =>
                have hlt := hholds.moved hm
                have hqd := Program.flow_depth_le hdepth q e.facts
                have hmul := callDepth_mul_add_le hlt
                omega
            | false =>
                have hmul : callDepth * s'.ahead.length ≤ callDepth * s.ahead.length :=
                  Nat.mul_le_mul_left _ hle
                rw [hm, if_neg Bool.false_ne_true] at hfuelq
                omega
          have hq' := hq r e.facts s' hokq hholds.facts (hp'.reads.ended he) hroom
          exact hq'.after hp'.reads hholds.moved

theorem exec_flows_cond {t : Test} {p q : Program φ}
    (hp : Keeps c contracts fuel (exec c rules recur) p)
    (hq : Keeps c contracts fuel (exec c rules recur) q) :
    Keeps c contracts fuel (exec c rules recur) (.cond t p q) := by
  intro r k s hok hk he hfuel
  rw [exec]
  rw [Program.flow] at hok hfuel ⊢
  dsimp only at hok hfuel ⊢
  obtain ⟨hokp, hokq⟩ := Bool.and_eq_true_iff.1 hok
  obtain ⟨hfuelp, hfuelq⟩ := le_of_add_max_le hfuel
  cases heval : t.eval c s.ahead s.expected with
  | mk answer expected =>
      cases answer with
      | true =>
          have hfacts : (t.facts true ++ k).Hold c s.ahead :=
            Facts.hold_append.2 ⟨t.facts_hold s.expected true (by rw [heval]), hk⟩
          -- the facts hold, so the flow of this branch counts
          rw [Flow.reached_of_hold hfacts] at hokp hfuelp ⊢
          have hp' := hp r _ { s with expected } hokp hfacts he hfuelp
          exact (hp'.merge_left _).of_reads_eq rfl rfl
      | false =>
          have hfacts : (t.facts false ++ k).Hold c s.ahead :=
            Facts.hold_append.2 ⟨t.facts_hold s.expected false (by rw [heval]), hk⟩
          rw [Flow.reached_of_hold hfacts] at hokq hfuelq ⊢
          have hq' := hq r _ { s with expected } hokq hfacts he hfuelq
          exact (hq'.merge_right _).of_reads_eq rfl rfl

/-- A round reads a token, which makes room for the next one. -/
theorem exec_flows_loop (hrecur : ∀ p, ∀ room < fuel, Keeps c contracts room recur p)
    {t : Test} {p : Program φ}
    (hp : Keeps c contracts fuel (exec c rules recur) p) :
    Keeps c contracts fuel (exec c rules recur) (.loop t p) := by
  intro r k s hok hk he hfuel
  rw [exec]
  cases heval : t.eval c s.ahead s.expected with
  | mk answer expected =>
      have hfacts : (t.facts answer).Hold c s.ahead :=
        t.facts_hold s.expected answer (by rw [heval])
      cases answer with
      | false => exact .finished (.of_eq rfl rfl) rfl ⟨hfacts, fun h => absurd h Bool.false_ne_true⟩
      | true =>
          dsimp only
          have hok' := hok
          have hfuel' := hfuel
          rw [Program.flow] at hok' hfuel'
          dsimp only at hok' hfuel'
          rw [Flow.reached_of_hold hfacts] at hok' hfuel'
          obtain ⟨hokp, hmoves⟩ := Bool.and_eq_true_iff.1 hok'
          have hp' : Flows c (p.flow contracts (t.facts true)) s
              (exec c rules recur r p { s with expected }) :=
            (hp r _ { s with expected } hokp hfacts he hfuel').of_reads_eq rfl rfl
          cases ho : exec c rules recur r p { s with expected } with
          | aborted why s' =>
              rw [ho] at hp'
              exact .aborted hp'.reads fun h => hp'.completes s' (h ▸ rfl)
          | finished s' =>
              rw [ho] at hp'
              obtain ⟨e, hmem, hholds⟩ := hp'.ends s' rfl
              have hlt := hholds.moved ((Option.all_eq_true _ _).1 hmoves e hmem)
              -- the flow of a loop is the same at every place, so also for the next round
              have hroom : callDepth * s'.ahead.length +
                  ((Program.loop t p).flow contracts []).depth < fuel := by
                have hmul := callDepth_mul_add_le hlt
                have hpos : 0 < callDepth := by decide
                have hsame : ((Program.loop t p).flow contracts []).depth =
                  ((Program.loop t p).flow contracts k).depth := rfl
                omega
              have hrest := hrecur (.loop t p) _ hroom r [] s' hok Facts.hold_nil
                (hp'.reads.ended he) le_rfl
              have hnone : false = true → s'.ahead.length < s.ahead.length :=
                fun h => absurd h Bool.false_ne_true
              exact hrest.after hp'.reads hnone

/-- Without a fitting attempt the other alternative starts where the attempt did. -/
theorem exec_flows_attempt {p q : Program φ}
    (hp : Keeps c contracts fuel (exec c rules recur) p)
    (hq : Keeps c contracts fuel (exec c rules recur) q) :
    Keeps c contracts fuel (exec c rules recur) (.attempt p q) := by
  intro r k s hok hk he hfuel
  rw [exec]
  rw [Program.flow] at hok hfuel ⊢
  dsimp only at hok hfuel ⊢
  obtain ⟨hokp, hokq⟩ := Bool.and_eq_true_iff.1 hok
  obtain ⟨hfuelp, hfuelq⟩ := le_of_add_max_le hfuel
  have hp' := hp .backtrack k s hokp hk he hfuelp
  cases ho : exec c rules recur .backtrack p s with
  | finished s' =>
      rw [ho] at hp'
      exact hp'.merge_left _
  | aborted why s' =>
      -- the tokens and the trees are those from before the attempt
      have hq' : Flows c (q.flow contracts k) s (exec c rules recur r q (s.undo s')) :=
        (hq r k (s.undo s') hokq hk he hfuelq).of_reads_eq rfl rfl
      cases why with
      | exhausted => exact absurd ho (hp'.completes s')
      | cancelled token => exact hq'.merge_right _
      | resync => exact hq'.merge_right _
      | backtrack => exact hq'.merge_right _

theorem exec_flows_resume {p : Program φ}
    (hp : Keeps c contracts fuel (exec c rules recur) p) :
    Keeps c contracts fuel (exec c rules recur) (.resume p) := by
  intro r k s hok hk he hfuel
  rw [exec]
  rw [Program.flow] at hok hfuel ⊢
  have hp' := hp r k s hok hk he hfuel
  cases ho : exec c rules recur r p s with
  | finished s' =>
      rw [ho] at hp'
      exact hp'.merge_left _
  | aborted why s' =>
      rw [ho] at hp'
      cases why with
      | resync =>
          -- the program gave up, and the rest of the statement is read as skipped
          obtain ⟨hreads, hholds⟩ := skipStatement_ending he hk hp'.reads
          have hskip : Flows c ⟨true, 0, some _⟩ s (.finished (s'.skipStatement c)) :=
            .finished hreads rfl hholds
          exact hskip.merge_right _
      | exhausted => exact absurd rfl (hp'.completes s')
      | cancelled token => exact hp'.merge_left _
      | backtrack => exact hp'.merge_left _

/-- A phrase does what its contract promises. -/
theorem exec_flows_call (hrules : ∀ phrase k, contracts phrase = some k →
      k.allows ((rules phrase).flow contracts k.facts) = true)
    (hrecur : ∀ p, ∀ room < fuel, Keeps c contracts room recur p) (phrase : φ) :
    Keeps c contracts fuel (exec c rules recur) (.call phrase) := by
  intro r k s hok hk he hfuel
  rw [exec]
  rw [Program.flow] at hok hfuel ⊢
  cases hcontract : contracts phrase with
  | none =>
      rw [hcontract] at hok
      cases hok
  | some contract =>
      simp only [hcontract] at hok hfuel ⊢
      have hallows := hrules phrase contract hcontract
      simp only [Contract.allows, Bool.and_eq_true, decide_eq_true_eq] at hallows
      obtain ⟨⟨hbody, hbound⟩, hmoves⟩ := hallows
      -- the only fact that a body relies on is the one that its callers have checked
      have hfacts : contract.facts.Hold c s.ahead := by
        unfold Contract.facts
        split
        case isTrue hinside =>
          rw [hinside, Bool.not_true, Bool.false_or] at hok
          have hne := Facts.kindAt_ne_of_rulesOut hk hok
          refine Facts.hold_singleton.2 ?_
          rw [Fact.Holds, ← Bool.not_eq_true, List.contains_iff_mem, List.mem_singleton]
          exact hne
        case isFalse => exact Facts.hold_nil
      have h := hrecur (rules phrase) _ (by omega) r contract.facts s hbody hfacts he le_rfl
      refine ⟨h.reads, h.completes, ?_⟩
      intro s' ho
      obtain ⟨e, hmem, hholds⟩ := h.ends s' ho
      -- what the body found out about the tokens ahead is forgotten by the caller
      refine ⟨_, rfl, Facts.hold_nil, fun hm => hholds.moved ?_⟩
      have hor := (Option.all_eq_true _ _).1 hmoves e hmem
      rwa [show contract.moves = true from hm, Bool.not_true, Bool.false_or] at hor

/-- A checked program keeps to its flow when everything that it calls does. -/
theorem exec_flows (hdepth : ∀ phrase k, contracts phrase = some k → k.depth < callDepth)
    (hrules : ∀ phrase k, contracts phrase = some k →
      k.allows ((rules phrase).flow contracts k.facts) = true)
    (hrecur : ∀ p, ∀ room < fuel, Keeps c contracts room recur p) (p : Program φ) :
    Keeps c contracts fuel (exec c rules recur) p := by
  induction p with
  | done =>
      intro r k s hok hk he hfuel
      exact .finished (.refl s) rfl ⟨hk, fun h => absurd h Bool.false_ne_true⟩
  | advance =>
      intro r k s hok hk he hfuel
      exact advance_flows contracts he hk hok
  | expect kind =>
      intro r k s hok hk he hfuel
      exact expect_flows contracts r kind he hok
  | refuse why =>
      intro r k s hok hk he hfuel
      exact refuse_flows r why
  | seq p q ihp ihq => exact exec_flows_seq hdepth ihp ihq
  | cond t p q ihp ihq => exact exec_flows_cond ihp ihq
  | loop t p ih => exact exec_flows_loop hrecur ih
  | node rule p ih =>
      intro r k s hok hk he hfuel
      exact (ih r k (s.enter c rule) hok hk he hfuel).map rfl (fun _ => rfl) fun _ => .leave rule
  | wrap rule p ih =>
      intro r k s hok hk he hfuel
      exact (ih r k (s.enterAround c rule) hok hk he hfuel).map rfl (fun _ => rfl) fun _ =>
        .leaveAround rule
  | attempt p q ihp ihq => exact exec_flows_attempt ihp ihq
  | resume p ih => exact exec_flows_resume ih
  | call phrase => exact exec_flows_call hrules hrecur phrase

/-- The run of a checked program is as its flow says. -/
theorem run_flows (c : Context)
    (hdepth : ∀ phrase k, contracts phrase = some k → k.depth < callDepth)
    (hrules : ∀ phrase k, contracts phrase = some k →
      k.allows ((rules phrase).flow contracts k.facts) = true) (fuel : Nat) :
    ∀ p : Program φ, ∀ room < fuel, Keeps c contracts room (run c rules fuel) p := by
  induction fuel with
  | zero => exact fun p room h => absurd h (Nat.not_lt_zero _)
  | succ fuel ih =>
      intro p room hroom r k s hok hk he hfuel
      exact exec_flows hdepth hrules ih p r k s hok hk he (hfuel.trans (Nat.le_of_lt_succ hroom))

end Programs

end MySqlAnalysis.Grammar
