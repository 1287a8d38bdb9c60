import MySqlAnalysis.Proofs.Analysis.TwoPass
import MySqlAnalysis.Proofs.Grammar.Bodies
import MySqlAnalysis.Proofs.Grammar.ExactSpans
import MySqlAnalysis.Proofs.Grammar.Groups

/-!
# Balanced statements

In a text without a parser error, the statements that read or change rows have balanced
parentheses (`Config.analyze_balances`). The bodies of their nodes are checked to close
the groups that they open (`grammar_closesGroups`), and what holds of every body that a
run without recovery read holds of every node of the tree (`Evaluates.every`).
-/

set_option autoImplicit false

namespace MySqlAnalysis

/-- No group is closed that was not opened, and all groups are closed at the end. -/
structure Balanced (kinds : List TokenKind) : Prop where
  inside : ∀ front, front <+: kinds → front.count .closeParen ≤ front.count .openParen
  whole : kinds.count .closeParen = kinds.count .openParen

namespace Grammar

/-! ### Depths and counts -/

theorem deepen_count {d d' : Nat} {kind : TokenKind} (h : deepen d kind = some d') :
    [kind].count .closeParen + d' = [kind].count .openParen + d := by
  cases kind with
  | closeParen =>
      rw [deepen] at h
      split at h
      case isTrue => cases h
      case isFalse hne =>
        cases h
        simp
        omega
  | openParen =>
      cases h
      simp [Nat.add_comm]
  | eof => cases h
  | semicolon => cases h
  | _ =>
      cases h
      simp

/-- The depth counts the parentheses that were opened and not closed. -/
theorem depthAfter_count {ts : List Token} :
    ∀ {d d' : Nat}, depthAfter d ts = some d' →
      (ts.map Token.kind).count .closeParen + d' = (ts.map Token.kind).count .openParen + d := by
  induction ts with
  | nil =>
      rintro d _ ⟨⟩
      rfl
  | cons t ts ih =>
      intro d d' h
      simp only [depthAfter, List.foldlM_cons, Option.bind_eq_bind, Option.bind_eq_some_iff] at h
      obtain ⟨next, hnext, h⟩ := h
      have hfirst := deepen_count hnext
      have hrest := ih h
      rw [List.map_cons, ← List.singleton_append, List.count_append, List.count_append]
      omega

theorem balanced_of_depthAfter {ts : List Token} (h : depthAfter 0 ts = some 0) :
    Balanced (ts.map Token.kind) where
  inside := by
    rintro front ⟨rest, hfront⟩
    obtain ⟨before, after, rfl, rfl, rfl⟩ := List.map_eq_append_iff.1 hfront.symm
    rw [depthAfter, List.foldlM_append] at h
    obtain ⟨d, hd, -⟩ := Option.bind_eq_some_iff.1 h
    have hcount := depthAfter_count hd
    omega
  whole := depthAfter_count h

/-! ### Nodes of a run without recovery -/

/-- What is left of a run without recovery: tokens were read, and a condition was kept at the
nodes of all trees. No statement is given up. -/
def Outcome.Keeps (P : Rule → List Tree → Prop) (s : State (List Tree)) :
    Outcome (List Tree) → Prop
  | .finished u => u.ahead <:+ s.ahead ∧ KeepsEvery P s.built u.built
  | .aborted why _ => why ≠ .resync

section Keeps

variable {c : Context} {r : Reaction} {P : Rule → List Tree → Prop}
  {s v : State (List Tree)} {o : Outcome (List Tree)}

theorem Outcome.Keeps.after (h : (Outcome.finished v).Keeps P s) (h' : o.Keeps P v) :
    o.Keeps P s := by
  cases o with
  | finished u => exact ⟨h'.1.trans h.1, KeepsEvery.leafPreorder.trans h.2 h'.2⟩
  | aborted why u => exact h'

theorem State.consume_keeps (s : State (List Tree)) :
    (Outcome.finished (s.consume c)).Keeps P s :=
  ⟨s.consume_suffix c, KeepsEvery.leafPreorder.token _ _⟩

theorem ne_resync_of_stopsFor {why : Abort} (hr : r ≠ .recover) (h : r.stopsFor why = true) :
    why ≠ .resync := by
  rintro rfl
  cases r with
  | recover => exact hr rfl
  | _ => cases h

theorem State.expect_keeps (hr : r ≠ .recover) (kind : TokenKind) (s : State (List Tree)) :
    (s.expect c r kind).Keeps P s := by
  have hfollows := s.expect_follows c r kind
  cases ho : s.expect c r kind with
  | finished u =>
      obtain ⟨-, rfl⟩ := expect_finished hr ho
      exact State.consume_keeps { s with expected := _ }
  | aborted why u => exact ne_resync_of_stopsFor hr (hfollows.stops why u ho)

theorem State.refuse_keeps (hr : r ≠ .recover) (why : Refusal) (s : State (List Tree)) :
    (s.refuse c r why).Keeps P s := by
  have hfollows := s.refuse_follows c r why
  cases ho : s.refuse c r why with
  | finished u => exact absurd ho (s.refuse_ne_finished c r why u)
  | aborted why' u => exact ne_resync_of_stopsFor hr (hfollows.stops why' u ho)

variable {body : Rule → Fragment → Bool} {around : Rule → Bool}

/-- A condition that holds of all bodies that pass its check, when they are read without
recovery, is kept at all nodes. -/
theorem Evaluates.every (all : List Token)
    (hrules : ∀ phrase, (grammar phrase).everyNode body around = true)
    (hbody : ∀ (rule : Rule) (p : Fragment) (r : Reaction) (s v : State (List Tree)),
      body rule p = true → p.halts = true → r ≠ .recover → s.ahead <:+ all →
        Evaluates c grammar r p (s.enter c rule) (.finished v) → P rule v.built)
    (haround : ∀ rule parts, around rule = true → P rule parts) {p : Fragment}
    (h : Evaluates c grammar r p s o) :
    r ≠ .recover → p.halts = true → p.everyNode body around = true → s.ahead <:+ all →
      o.Keeps P s := by
  induction h with
  | done => exact fun _ _ _ _ => ⟨List.suffix_rfl, id⟩
  | @advance r s => exact fun _ _ _ _ => s.consume_keeps
  | @expect r s kind => exact fun hr _ _ _ => s.expect_keeps hr kind
  | @refuse r s why => exact fun hr _ _ _ => s.refuse_keeps hr why
  | seq _ _ ih ih' =>
      intro hr hp hnodes hs
      rw [Program.halts, Bool.and_eq_true] at hp
      obtain ⟨hfirst, hrest⟩ := Bool.and_eq_true_iff.1 hnodes
      have hmiddle := ih hr hp.1 hfirst hs
      exact hmiddle.after (ih' hr hp.2 hrest (hmiddle.1.trans hs))
  | seqAborted _ ih =>
      intro hr hp hnodes hs
      exact ih hr (Bool.and_eq_true_iff.1 hp).1 (Bool.and_eq_true_iff.1 hnodes).1 hs
  | condTrue _ _ ih =>
      intro hr hp hnodes hs
      rw [Program.halts, Bool.and_eq_true, Bool.and_eq_true] at hp
      exact ih hr hp.1.2 (Bool.and_eq_true_iff.1 hnodes).1 hs
  | condFalse _ _ ih =>
      intro hr hp hnodes hs
      rw [Program.halts, Bool.and_eq_true] at hp
      exact ih hr hp.2 (Bool.and_eq_true_iff.1 hnodes).2 hs
  | loopStop _ => exact fun _ _ _ _ => ⟨List.suffix_rfl, id⟩
  | loopNext _ _ _ ih ih' =>
      intro hr hp hnodes hs
      have hround := ih hr (Bool.and_eq_true_iff.1 hp).2 hnodes hs
      exact hround.after (ih' hr hp hnodes (hround.1.trans hs))
  | loopAborted _ _ ih =>
      intro hr hp hnodes hs
      exact ih hr (Bool.and_eq_true_iff.1 hp).2 hnodes hs
  | @node r s rule p o heval ih =>
      intro hr hp hnodes hs
      obtain ⟨hparts, hcheck⟩ := Bool.and_eq_true_iff.1 hnodes
      have hinside := ih hr hp hparts hs
      cases o with
      | aborted why v => exact hinside
      | finished v =>
          refine ⟨hinside.1, .concat (List.Subset.refl _) fun _ => .node _ _ ?_ ?_⟩
          · exact hbody rule p r s v hcheck hp hr hs heval
          · exact hinside.2 fun t ht => absurd ht List.not_mem_nil
  | @wrap r s rule p o _ ih =>
      intro hr hp hnodes hs
      obtain ⟨hparts, hcheck⟩ := Bool.and_eq_true_iff.1 hnodes
      have hinside := ih hr hp hparts hs
      cases o with
      | aborted why v => exact hinside
      | finished v =>
          refine ⟨hinside.1, .concat (List.dropLast_subset _) fun hbefore => .node _ _ ?_ ?_⟩
          · exact haround rule _ hcheck
          · -- the part that the node is opened around was there before
            exact hinside.2 fun t ht =>
              hbefore t (List.mem_of_getLast? (Option.mem_toList.1 ht))
  | attempt _ ih =>
      intro _ hp hnodes hs
      exact ih (by decide) (Bool.and_eq_true_iff.1 hp).1 (Bool.and_eq_true_iff.1 hnodes).1 hs
  | attemptUndone _ _ _ ih =>
      intro hr hp hnodes hs
      exact ih hr (Bool.and_eq_true_iff.1 hp).2 (Bool.and_eq_true_iff.1 hnodes).2 hs
  | resume _ _ ih => exact ih
  | resumeSkipped _ _ ih =>
      intro hr hp hnodes hs
      exact absurd rfl (ih hr hp hnodes hs)
  | @call r s phrase o _ ih =>
      intro hr _ _ hs
      exact ih hr (grammar_halts phrase) (hrules phrase) hs

end Keeps

/-! ### The bodies of statements -/

/-- The rules of statements that read or change rows. -/
def rowStatements : List Rule :=
  [.selectStatement, .insertStatement, .replaceStatement, .updateStatement, .deleteStatement]

/-- The kinds of the tokens that leaves stand for. -/
def kindsOf (tokens : List Token) (leaves : List Nat) : List TokenKind :=
  leaves.filterMap fun i => tokens[i]?.map Token.kind

/-- A statement that reads or changes rows has balanced parentheses. -/
def BalancedRows (tokens : List Token) (rule : Rule) (parts : List Tree) : Prop :=
  rule ∈ rowStatements → Balanced (kindsOf tokens (Tree.leavesAll parts))

/-- The check of a body that comes to it. -/
def closesGroups (rule : Rule) (p : Fragment) : Bool :=
  !rowStatements.contains rule || (p.descent groupOf [] 0 true).closes true

theorem grammar_closesGroups (phrase : Phrase) :
    (grammar phrase).everyNode closesGroups (fun rule => !rowStatements.contains rule) = true := by
  cases phrase with
  | frame depth => cases depth <;> rfl
  | alterTokens depth => cases depth <;> rfl
  | _ => rfl

theorem kindsOf_map_index {tokens ts : List Token} (h : ∀ t ∈ ts, tokens[t.index]? = some t) :
    kindsOf tokens (ts.map Token.index) = ts.map Token.kind := by
  induction ts with
  | nil => rfl
  | cons t ts ih =>
      obtain ⟨ht, hts⟩ := List.forall_mem_cons.1 h
      rw [List.map_cons, kindsOf, List.filterMap_cons, ht, List.map_cons, ← ih hts]
      rfl

/-- A body that closes its groups and was read without recovery has balanced parentheses. -/
theorem balanced_of_closes {c : Context} (hc : c.ending.isEof = true) {tokens : List Token}
    {r : Reaction} {p : Fragment} {s v : State (List Tree)}
    (hclose : (p.descent groupOf [] 0 true).closes true = true) (hp : p.halts = true)
    (hr : r ≠ .recover) (hbuilt : s.built = []) (htokens : ∀ t ∈ s.ahead, tokens[t.index]? = some t)
    (h : Evaluates c grammar r p s (.finished v)) :
    Balanced (kindsOf tokens (Tree.leavesAll v.built)) := by
  have hcovers := h.covers hc hp hr v rfl [] 0 true Facts.hold_nil 0 s.ahead (.refl c true 0 _)
  obtain ⟨⟨read, hahead, -, hleaves⟩, read', hahead', -, hend⟩ := hcovers.of_closes hclose
  obtain rfl : read = read' := List.append_cancel_right (hahead.symm.trans hahead')
  have hdepth : depthAfter 0 read = some 0 := hend.resolve_left fun hunsure => by cases hunsure.1
  have hread : ∀ t ∈ read, tokens[t.index]? = some t := fun t ht =>
    htokens t (hahead ▸ List.mem_append_left _ ht)
  rw [hleaves, hbuilt, Tree.leavesAll, List.nil_append, kindsOf_map_index hread]
  exact balanced_of_depthAfter hdepth

/-- A text that is read without a report is accepted as a whole: a run that bails reads the
same tree. -/
theorem accepts_of_silent {o : Options} {start : StartRule} {tokens : List Token}
    (h : Listed tokens)
    (hreports : (parse (o.withStrategy .recover) start tokens).reports = []) :
    ∃ f, (parse (o.withStrategy .recover) start tokens).root = f.built.head? ∧
      Accepts (contextOf o tokens) start.program (.initial tokens) f := by
  obtain ⟨f, hbail, hrecover⟩ := exists_finished_of_silent o start h hreports
  refine ⟨f, ?_, .of_run (endingOf_isEof tokens) start.program_halts hbail⟩
  rw [parse, hrecover]
  rfl

/-- The statements of a tree that was read without a report have balanced parentheses. -/
theorem parse_balances {o : Options} {start : StartRule} {tokens : List Token}
    (h : Listed tokens)
    (hreports : (parse (o.withStrategy .recover) start tokens).reports = []) :
    ∀ root ∈ (parse (o.withStrategy .recover) start tokens).root,
      root.Every (BalancedRows tokens) := by
  obtain ⟨f, hf, haccepts⟩ := accepts_of_silent h hreports
  have hc : (contextOf o tokens).ending.isEof = true := endingOf_isEof tokens
  have hnodes : start.program.everyNode closesGroups (fun rule => !rowStatements.contains rule) =
      true := by cases start <;> rfl
  have hkeeps := Evaluates.every (P := BalancedRows tokens) (significant tokens)
    grammar_closesGroups ?_ ?_ haccepts (by decide) start.program_halts hnodes List.suffix_rfl
  · intro root hroot
    rw [hf] at hroot
    exact hkeeps.2 (fun t ht => absurd ht List.not_mem_nil) root (List.mem_of_head? hroot)
  · intro rule p r s v hcheck hp hr hs hbody hmem
    have hclose := (Bool.or_eq_true_iff.1 hcheck).resolve_left (by simpa using hmem)
    refine balanced_of_closes hc hclose hp hr rfl (fun t ht => ?_) hbody
    exact h.getElem?_index (List.mem_filter.1 (hs.subset ht)).1
  · intro rule parts hrule hmem
    exact absurd hmem (by simpa using hrule)

end Grammar

/-! ### Texts -/

theorem Tree.leavesAll_children {t : Tree} {r : Rule} (h : t.rule? = some r) :
    leavesAll t.children = t.leaves := by
  cases t with
  | token index => cases h
  | skipped index => cases h
  | node rule first last parts => rfl

namespace Config

open Grammar

/-- In a text without a parser error, every statement that reads or changes rows has balanced
parentheses. -/
theorem analyze_balances (c : Config) (rule : StartRule) (text : String)
    (herror : (c.analyze rule text).diagnostics.parser = none) :
    ∀ root ∈ (c.analyze rule text).document.root, ∀ l ∈ root.nodes,
      ∀ r ∈ rowStatements, l.tree.rule? = some r →
        Balanced (kindsOf (c.analyze rule text).tokens l.tree.leaves) := by
  have hlisted := tokenize_listed c.dialect text
  intro root hroot l hl r hr hrule
  have hparse : root ∈ (parse c.exactOptions rule (tokenize c.dialect text)).root := by
    rw [← parseTokens_eq_exact hlisted]
    exact hroot
  have hevery := parse_balances (o := c.exactOptions) hlisted (reports_eq_nil herror) root hparse
  have hnode : l.tree.Every (BalancedRows (tokenize c.dialect text)) :=
    Tree.inherit_located (fun t ht part => ht.of_mem) [] root hevery l hl
  rw [analyze_tokens, ← Tree.leavesAll_children hrule]
  exact hnode.children hrule hr

/-- A query with a window whose frame has parentheses of its own. -/
theorem analyze_balances_window :
    ∃ root ∈ (Config.standard.analyze .query "SELECT SUM(a) OVER (ROWS (b))").document.root,
      ∃ l ∈ root.nodes, l.tree.rule? = some .selectStatement ∧
        [.openParen, .openParen, .openParen].Sublist (kindsOf
          (Config.standard.analyze .query "SELECT SUM(a) OVER (ROWS (b))").tokens l.tree.leaves) ∧
        Balanced (kindsOf
          (Config.standard.analyze .query "SELECT SUM(a) OVER (ROWS (b))").tokens
            l.tree.leaves) := by
  have hrun :
      (Config.standard.analyze .query "SELECT SUM(a) OVER (ROWS (b))").diagnostics.parser = none ∧
        ∃ root ∈ (Config.standard.analyze .query "SELECT SUM(a) OVER (ROWS (b))").document.root,
          ∃ l ∈ root.nodes, l.tree.rule? = some .selectStatement ∧
            [.openParen, .openParen, .openParen].Sublist (kindsOf
              (Config.standard.analyze .query "SELECT SUM(a) OVER (ROWS (b))").tokens
                l.tree.leaves) := by
    decide +kernel
  obtain ⟨herror, root, hroot, l, hl, hrule, hopen⟩ := hrun
  refine ⟨root, hroot, l, hl, hrule, hopen, ?_⟩
  exact analyze_balances Config.standard .query "SELECT SUM(a) OVER (ROWS (b))" herror root hroot l
    hl .selectStatement (by decide) hrule

end Config

end MySqlAnalysis
