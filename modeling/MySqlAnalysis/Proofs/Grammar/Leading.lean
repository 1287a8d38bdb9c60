import MySqlAnalysis.Proofs.Grammar.Rounds

/-!
# What a statement starts with

A statement is read by the alternative that the first tokens decide for
(`Program.resolve`, `exec_resolve`). The first node of a statement therefore tells
what the statement starts with: each rule for a statement with structure has its
opening (`Rule.opening?`), and the tokens of a script whose first statement is of the
rule answer to it (`parse_leading`).
-/

set_option autoImplicit false

namespace MySqlAnalysis

/-! ### The leading rule of a script -/

namespace Tree

/-- The first part that is a node. -/
def firstNode? (t : Tree) : Option Tree :=
  t.children.find? (·.rule?.isSome)

/-- The rule that tells what a statement is: that of its first node or, for
definitions and removals, of the first node of that one. -/
def leadingRule? (statement : Tree) : Option Rule := do
  let node ← statement.firstNode?
  if node.isRule .createStatement || node.isRule .dropStatement then
    (← node.firstNode?).rule?
  else node.rule?

end Tree

/-- The leading rule of a script that starts with a statement. -/
def Document.leadingRule? (d : Document) : Option Rule := do
  let root ← d.root
  let statement ← root.children.head?
  if statement.isRule .simpleStatement then statement.leadingRule? else none

namespace Grammar

/-- What the statements of a rule with structure start with. -/
def openingOf? : Rule → Option Look
  | .selectStatement => some (.among 0 [.openParen, .keyword .SELECT, .keyword .WITH])
  | .insertStatement => some (.word [.INSERT])
  | .replaceStatement => some (.word [.REPLACE])
  | .updateStatement => some (.word [.UPDATE])
  | .deleteStatement => some (.word [.DELETE])
  | .createTable => some (.both (.word [.CREATE]) (.wordAt 1 [.TABLE, .TEMPORARY]))
  | .createDatabase => some (.both (.word [.CREATE]) (.wordAt 1 [.DATABASE, .SCHEMA]))
  | .createIndex =>
    some (.both (.word [.CREATE])
      (.wordAt 1 [.INDEX, .UNIQUE, .FULLTEXT, .SPATIAL, .ONLINE, .OFFLINE]))
  | .createView =>
    some (.both (.word [.CREATE]) (.wordAt 1 [.VIEW, .OR, .ALGORITHM, .DEFINER, .SQL]))
  | .createRole => some (.both (.word [.CREATE]) (.wordAt 1 [.ROLE]))
  | .dropTable => some (.both (.word [.DROP]) (.wordAt 1 [.TABLE, .TABLES, .TEMPORARY]))
  | .dropDatabase => some (.both (.word [.DROP]) (.wordAt 1 [.DATABASE, .SCHEMA]))
  | .dropIndex => some (.both (.word [.DROP]) (.wordAt 1 [.INDEX, .ONLINE, .OFFLINE]))
  | .dropView => some (.both (.word [.DROP]) (.wordAt 1 [.VIEW]))
  | .dropRole => some (.both (.word [.DROP]) (.wordAt 1 [.ROLE]))
  | .alterTable =>
    some (.both (.word [.ALTER]) (.beyond 1 (words alterModifiers) [.keyword .TABLE]))
  | .truncateTable => some (.word [.TRUNCATE])
  | .renameTable => some (.both (.word [.RENAME]) (.wordAt 1 [.TABLE, .TABLES]))
  | .useCommand => some (.word [.USE])
  | .savepointStatement =>
    some (.either (.word [.SAVEPOINT, .RELEASE]) (.both (.word [.ROLLBACK]) rollbackToAhead))
  | .transactionStatement =>
    some
      (.either
        (.both (.word [.ROLLBACK, .COMMIT]) (.not (.both (.word [.ROLLBACK]) rollbackToAhead)))
        (.either (.word [.BEGIN]) (.both (.word [.START]) (.wordAt 1 [.TRANSACTION]))))
  | .describeStatement =>
    some (.both (.word [.DESCRIBE, .DESC, .EXPLAIN]) (.not explainAhead))
  | .explainStatement => some (.both (.word [.DESCRIBE, .DESC, .EXPLAIN]) explainAhead)
  | _ => none

variable {φ : Type}

/-! ### Alternatives -/

namespace Program

/-- The alternative that looks decide for, `called` telling what phrases stand for. -/
def settle (c : Context) (ahead : List Token) (called : φ → Program φ) : Program φ → Program φ
  | cond (.look l) p q =>
    if l.holds c ahead then p.settle c ahead called else q.settle c ahead called
  | call phrase => called phrase
  | p => p

/-- The alternative that looks decide for, through at most `n` phrases. -/
def resolve (rules : φ → Program φ) (c : Context) (ahead : List Token) :
    (n : Nat) → Program φ → Program φ
  | 0, p => p.settle c ahead .call
  | n + 1, p => p.settle c ahead fun phrase => resolve rules c ahead n (rules phrase)

/-- What a node is built around. -/
def body : Program φ → Program φ
  | node _ p => p
  | p => p

end Program

section Alternatives

variable {c : Context} {rules : φ → Program φ} {β : Type} [Builder β]

theorem exec_settle (r : Reaction) (s : State β) {n fuel : Nat} {called : φ → Program φ}
    (hcalled : ∀ phrase, ∃ fuel', fuel ≤ fuel' + n ∧
      exec c rules (run c rules fuel) r (.call phrase) s =
        exec c rules (run c rules fuel') r (called phrase) s) (p : Program φ) :
    ∃ fuel', fuel ≤ fuel' + n ∧ exec c rules (run c rules fuel) r p s =
      exec c rules (run c rules fuel') r (p.settle c s.ahead called) s := by
  fun_induction Program.settle c s.ahead called p with
  | case1 l p q hl ih =>
      obtain ⟨fuel', hle, heq⟩ := ih
      exact ⟨fuel', hle, by simp [exec, Test.eval, hl, heq]⟩
  | case2 l p q hl ih =>
      obtain ⟨fuel', hle, heq⟩ := ih
      exact ⟨fuel', hle, by simp [exec, Test.eval, hl, heq]⟩
  | case3 phrase => exact hcalled phrase
  | case4 p => exact ⟨fuel, Nat.le_add_right _ _, rfl⟩

/-- Running a program is running the alternative that its looks decide for. -/
theorem exec_resolve (r : Reaction) (s : State β) (n : Nat) :
    ∀ (p : Program φ) (fuel : Nat), n ≤ fuel → ∃ fuel', fuel ≤ fuel' + n ∧
      exec c rules (run c rules fuel) r p s =
        exec c rules (run c rules fuel') r (p.resolve rules c s.ahead n) s := by
  induction n with
  | zero => exact fun p fuel _ => exec_settle (n := 0) r s (fun _ => ⟨fuel, le_rfl, rfl⟩) p
  | succ n ih =>
      intro p fuel hfuel
      refine exec_settle r s (fun phrase => ?_) p
      obtain ⟨fuel, rfl⟩ : ∃ m, fuel = m + 1 := ⟨fuel - 1, by omega⟩
      obtain ⟨fuel', hle, heq⟩ := ih (rules phrase) fuel (by omega)
      exact ⟨fuel', by omega, heq⟩

end Alternatives

/-! ### The openings of statements -/

/-- A refusal, or a node with a property. -/
def Program.Decided (P : Rule → Program φ → Prop) (p : Program φ) : Prop :=
  (∃ why, p = .refuse why) ∨ ∃ rule q, p = .node rule q ∧ P rule q

namespace Program.Decided

variable {P : Rule → Program φ → Prop} {p q : Program φ}

theorem node {rule : Rule} (h : P rule q) : Decided P (.node rule q) :=
  .inr ⟨rule, q, rfl, h⟩

theorem refuse (why : Refusal) : Decided P (.refuse why) :=
  .inl ⟨why, rfl⟩

theorem ite {c : Context} {ahead : List Token} {l : Look}
    (hp : l.holds c ahead = true → Decided P p)
    (hq : l.holds c ahead = false → Decided P q) :
    Decided P (if l.holds c ahead then p else q) := by
  split
  case isTrue h => exact hp h
  case isFalse h => exact hq (by simpa using h)

end Program.Decided

section Openings

variable {c : Context} {ahead : List Token}

/-- The tokens ahead start as the statements of a rule do. -/
def Opens (c : Context) (ahead : List Token) (rule : Rule) : Prop :=
  ∀ look ∈ openingOf? rule, look.holds c ahead = true

theorem Opens.of_look {rule : Rule} {look : Look} (hrule : openingOf? rule = some look)
    (h : look.holds c ahead = true) : Opens c ahead rule := by
  intro l hl
  rw [hrule] at hl
  cases hl
  exact h

theorem Opens.of_none {rule : Rule} (h : openingOf? rule = none) : Opens c ahead rule := by
  intro l hl
  rw [h] at hl
  cases hl

/-- A transaction or a savepoint. -/
theorem transactionStatement_opens (called : Phrase → Fragment)
    (h : Look.holds c ahead (.word [.START, .BEGIN, .COMMIT, .ROLLBACK, .SAVEPOINT, .RELEASE]) =
      true) :
    (transactionStatementBody.settle c ahead called).Decided fun rule _ =>
      Opens c ahead rule ∧ rule ≠ .createStatement ∧ rule ≠ .dropStatement := by
  rw [transactionStatementBody]
  refine .ite (fun hsave => .node ⟨.of_look rfl ?_, by simp⟩) fun hsave => ?_
  · exact Bool.or_eq_true_iff.2 (.inl hsave)
  refine .ite (fun hto => .node ⟨.of_look rfl ?_, by simp⟩) fun hto => ?_
  · exact Bool.or_eq_true_iff.2 (.inr hto)
  refine .ite (fun hend => .node ⟨.of_look rfl ?_, by simp⟩) fun hend => ?_
  · exact Bool.or_eq_true_iff.2
      (.inl (Bool.and_eq_true_iff.2 ⟨hend, congrArg Bool.not hto⟩))
  refine .ite (fun hbegin => .node ⟨.of_look rfl ?_, by simp⟩) fun hbegin => ?_
  · exact Bool.or_eq_true_iff.2 (.inr (Bool.or_eq_true_iff.2 (.inl hbegin)))
  refine .ite (fun hstart => .node ⟨.of_look rfl ?_, by simp⟩) fun _ =>
    .node ⟨.of_none rfl, by simp⟩
  -- of the words for transactions only one is left
  refine Bool.or_eq_true_iff.2 (.inr (Bool.or_eq_true_iff.2 (.inr ?_)))
  refine Bool.and_eq_true_iff.2 ⟨?_, hstart⟩
  simp_all [Look.holds, Look.word, words]

/-- What a statement is read into; definitions and removals are still open. -/
theorem simpleStatement_opens (c : Context) (ahead : List Token) :
    (simpleStatementBody.body.resolve grammar c ahead 2).Decided fun rule q =>
      Opens c ahead rule ∧
        (rule = .createStatement → q = createStatementBody.body ∧
          c.kindAt ahead 0 = .keyword .CREATE) ∧
        (rule = .dropStatement → q = dropStatementBody.body ∧
          c.kindAt ahead 0 = .keyword .DROP) := by
  rw [simpleStatementBody]
  refine .ite (fun h => .node ⟨.of_look rfl h, by simp⟩) fun _ => ?_
  refine .ite (fun h => .node ⟨.of_look rfl h, by simp⟩) fun _ => ?_
  refine .ite (fun h => .node ⟨.of_look rfl h, by simp⟩) fun _ => ?_
  refine .ite (fun h => .node ⟨.of_look rfl h, by simp⟩) fun _ => ?_
  refine .ite (fun h => .node ⟨.of_look rfl h, by simp⟩) fun _ => ?_
  refine .ite (fun h => .node ⟨.of_none rfl, fun _ => ⟨rfl, ?_⟩, by simp⟩) fun _ => ?_
  · simpa [Look.holds, Look.word, words] using h
  refine .ite (fun h => .node ⟨.of_none rfl, by simp, fun _ => ⟨rfl, ?_⟩⟩) fun _ => ?_
  · simpa [Look.holds, Look.word, words] using h
  refine .ite (fun halter => .ite (fun h => .node ⟨.of_look rfl ?_, by simp⟩) fun _ =>
    .node ⟨.of_none rfl, by simp⟩) fun _ => ?_
  · exact Bool.and_eq_true_iff.2 ⟨halter, h⟩
  refine .ite (fun h => .node ⟨.of_look rfl h, by simp⟩) fun _ => ?_
  refine .ite (fun hrename => .ite (fun h => .node ⟨.of_look rfl ?_, by simp⟩) fun _ =>
    .node ⟨.of_none rfl, by simp⟩) fun _ => ?_
  · exact Bool.and_eq_true_iff.2 ⟨hrename, h⟩
  refine .ite (fun h => .node ⟨.of_look rfl h, by simp⟩) fun _ => ?_
  refine .ite (fun _ => .node ⟨.of_none rfl, by simp⟩) fun _ => ?_
  refine .ite (fun h => ?_) fun _ => ?_
  · obtain ⟨why, hwhy⟩ | ⟨rule, q, hnode, hopens, hcreate, hdrop⟩ :=
      transactionStatement_opens _ h
    · exact .inl ⟨why, hwhy⟩
    · exact .inr ⟨rule, q, hnode, hopens, fun heq => absurd heq hcreate,
        fun heq => absurd heq hdrop⟩
  refine .ite (fun _ => .node ⟨.of_none rfl, by simp⟩) fun _ => ?_
  refine .ite (fun hverb => .ite (fun h => .node ⟨.of_look rfl ?_, by simp⟩) fun h =>
    .node ⟨.of_look rfl ?_, by simp⟩) fun _ => ?_
  · exact Bool.and_eq_true_iff.2 ⟨hverb, h⟩
  · exact Bool.and_eq_true_iff.2 ⟨hverb, congrArg Bool.not h⟩
  refine .ite (fun _ => .node ⟨.of_none rfl, by simp⟩) fun _ => ?_
  exact .refuse _

/-- The first word is behind, and the word after it was looked at. -/
theorem Opens.of_tail {rule : Rule} {verb : Keyword} {objects : List Keyword}
    (hverb : c.kindAt ahead 0 = .keyword verb)
    (hrule : openingOf? rule = some (.both (.word [verb]) (.wordAt 1 objects)))
    (h : Look.holds c ahead.tail (.word objects) = true) : Opens c ahead rule := by
  refine .of_look hrule (Bool.and_eq_true_iff.2 ⟨?_, ?_⟩)
  · simp [Look.holds, Look.word, words, hverb]
  · rw [← h, Look.word, Look.holds, Facts.kindAt_tail]
    rfl

theorem word_mono {ks ks' : List Keyword} (hks : ks ⊆ ks')
    (h : Look.holds c ahead (.word ks) = true) : Look.holds c ahead (.word ks') = true := by
  simp only [Look.word, Look.holds, words, List.contains_iff_mem] at h ⊢
  exact List.map_subset _ hks h

/-- What a definition is read into after its first word. -/
theorem createStatement_opens (h : c.kindAt ahead 0 = .keyword .CREATE) :
    ∃ choice, createStatementBody.body = .seq (.expect (.keyword .CREATE)) choice ∧
      (choice.resolve grammar c ahead.tail 1).Decided fun rule _ => Opens c ahead rule := by
  refine ⟨_, rfl, ?_⟩
  refine .ite (fun hobject => .node (.of_tail h rfl hobject)) fun _ => ?_
  refine .ite (fun hobject => .node (.of_tail h rfl hobject)) fun _ => ?_
  refine .ite (fun hobject => .node (.of_tail h rfl hobject)) fun _ => ?_
  refine .ite (fun hobject => .node (.of_tail h rfl (word_mono (by simp) hobject))) fun _ => ?_
  refine .ite (fun hobject => .ite
    (fun _ => .node (.of_tail h rfl (word_mono (by simp) hobject))) fun _ => .node (.of_none rfl))
    fun _ => ?_
  refine .ite (fun hobject => .node (.of_tail h rfl hobject)) fun _ => ?_
  exact .ite (fun _ => .node (.of_none rfl)) fun _ => .refuse _

/-- What a removal is read into after its first word. -/
theorem dropStatement_opens (h : c.kindAt ahead 0 = .keyword .DROP) :
    ∃ choice, dropStatementBody.body = .seq (.expect (.keyword .DROP)) choice ∧
      (choice.resolve grammar c ahead.tail 1).Decided fun rule _ => Opens c ahead rule := by
  refine ⟨_, rfl, ?_⟩
  refine .ite (fun hobject => .node (.of_tail h rfl hobject)) fun _ => ?_
  refine .ite (fun hobject => .node (.of_tail h rfl hobject)) fun _ => ?_
  refine .ite (fun hobject => .node (.of_tail h rfl hobject)) fun _ => ?_
  refine .ite (fun hobject => .node (.of_tail h rfl hobject)) fun _ => ?_
  refine .ite (fun hobject => .node (.of_tail h rfl hobject)) fun _ => ?_
  exact .ite (fun _ => .node (.of_none rfl)) fun _ => .refuse _

end Openings

/-! ### The first statement of a script -/

section FirstStatement

variable {c : Context} {s : State (List Tree)} {fuel : Nat}

/-- What a program builds that looks decide to be a refusal or a node. -/
theorem exec_decided {P : Rule → Fragment → Prop} {p : Fragment} (r : Reaction) {n : Nat}
    (hn : n ≤ fuel) (h : (p.resolve grammar c s.ahead n).Decided P) :
    (exec c grammar (run c grammar fuel) r p s).state.built = s.built ∨
      ∃ rule q fuel' first last, P rule q ∧ fuel ≤ fuel' + n ∧
        (exec c grammar (run c grammar fuel) r p s).state.built =
          s.built ++ [.node rule first last
            (exec c grammar (run c grammar fuel') r q (s.enter c rule)).state.built] := by
  obtain ⟨fuel', hle, hexec⟩ : ∃ fuel', fuel ≤ fuel' + n ∧
      exec c grammar (run c grammar fuel) r p s =
        exec c grammar (run c grammar fuel') r (p.resolve grammar c s.ahead n) s :=
    exec_resolve r s n p fuel hn
  rw [hexec]
  rcases h with ⟨why, hwhy⟩ | ⟨rule, q, hnode, hP⟩
  · left
    rw [hwhy, exec]
    cases why <;> cases r <;> rfl
  · right
    rw [hnode, exec, Outcome.state_map]
    exact ⟨rule, q, fuel', _, _, hP, hle, rfl⟩

/-- The first node of a definition or a removal. -/
theorem exec_object {verb : Keyword} {choice : Fragment} (r : Reaction) (hfuel : 1 ≤ fuel)
    (he : c.Ended s.ahead) (hverb : c.kindAt s.ahead 0 = .keyword verb) (hs : s.built = [])
    (h : (choice.resolve grammar c s.ahead.tail 1).Decided fun rule _ => Opens c s.ahead rule) :
    ∀ t, (exec c grammar (run c grammar fuel) r
        (.seq (.expect (.keyword verb)) choice) s).state.built.find? (·.rule?.isSome) = some t →
      ∀ rule ∈ t.rule?, Opens c s.ahead rule := by
  obtain ⟨t, ts, hahead, heof⟩ := he.cons_of_kindAt_ne (by rw [hverb]; simp)
  let s' : State (List Tree) :=
    State.consume { s with expected := noteKind s.expected (.keyword verb) } c
  have hs'ahead : s'.ahead = s.ahead.tail := by
    rw [hahead]
    exact (State.consume_reads (c := c)
      (s := { s with expected := noteKind s.expected (.keyword verb) }) hahead heof).1
  have hs'built : ∃ i, s'.built = [.token i] := ⟨_, by
    simp [s', State.consume, State.shift, Builder.token, hs]; rfl⟩
  have hexpect : exec c grammar (run c grammar fuel) r (.expect (.keyword verb)) s =
      .finished s' := by
    rw [exec, State.expect]
    simp [hverb, s']
  obtain ⟨i, hi⟩ := hs'built
  rw [exec, hexpect, Outcome.andThen_finished]
  intro t' ht'
  rw [← hs'ahead] at h
  rcases exec_decided r hfuel h with hbuilt | ⟨rule, q, fuel', first, last, hopens, -, hbuilt⟩
  · rw [hbuilt, hi] at ht'
    simp [Tree.rule?] at ht'
  · rw [hbuilt, hi] at ht'
    simp [Tree.rule?] at ht'
    rw [← ht']
    intro rule' hrule'
    cases hrule'
    exact hopens

/-- The leading rule of a statement tells how it starts. -/
theorem exec_simpleStatement_leading (r : Reaction) (hfuel : 3 ≤ fuel) (he : c.Ended s.ahead)
    (hs : s.built = []) {rule : Rule} {first : Nat} {last : Option Nat}
    (h : Tree.leadingRule? (.node .simpleStatement first last
      (exec c grammar (run c grammar fuel) r simpleStatementBody.body s).state.built) =
        some rule) : Opens c s.ahead rule := by
  simp only [Tree.leadingRule?, Option.bind_eq_bind, Option.bind_eq_some_iff] at h
  obtain ⟨node, hnode, hrule⟩ := h
  rw [Tree.firstNode?, Tree.children] at hnode
  rcases exec_decided r (by omega : 2 ≤ fuel) (simpleStatement_opens c s.ahead) with
    hbuilt | ⟨rule', q, fuel', first', last', ⟨hopens, hcreate, hdrop⟩, hle, hbuilt⟩
  · rw [hbuilt, hs] at hnode
    cases hnode
  · rw [hbuilt, hs] at hnode
    cases hnode
    split at hrule
    · next hobject =>
      simp only [Option.bind_eq_some_iff] at hrule
      obtain ⟨object, hfind, hrule⟩ := hrule
      rcases Bool.or_eq_true_iff.1 hobject with hobject | hobject
      · obtain ⟨rfl, hverb⟩ := hcreate (by simpa [Tree.isRule, Tree.rule?] using hobject)
        obtain ⟨choice, hbody, hdecided⟩ := createStatement_opens hverb
        rw [Tree.firstNode?, Tree.children, hbody] at hfind
        exact exec_object (s := s.enter c rule') r (by omega) he hverb rfl hdecided object hfind
          rule hrule
      · obtain ⟨rfl, hverb⟩ := hdrop (by simpa [Tree.isRule, Tree.rule?] using hobject)
        obtain ⟨choice, hbody, hdecided⟩ := dropStatement_opens hverb
        rw [Tree.firstNode?, Tree.children, hbody] at hfind
        exact exec_object (s := s.enter c rule') r (by omega) he hverb rfl hdecided object hfind
          rule hrule
    · cases hrule
      exact hopens

/-- The leading rule of the first part of a script, when that is a statement. -/
theorem exec_statements_leading (r : Reaction) (hfuel : 4 ≤ fuel) (he : c.Ended s.ahead)
    (hs : s.built = []) {statement : Tree} {rule : Rule}
    (hhead : (exec c grammar (run c grammar fuel) r statements s).state.built.head? =
      some statement)
    (hstatement : statement.isRule .simpleStatement = true)
    (hrule : statement.leadingRule? = some rule) : Opens c s.ahead rule := by
  obtain ⟨heof, hsemicolon⟩ := kindAt_of_first_statement r hs hhead hstatement
  obtain ⟨fuel, rfl⟩ : ∃ m, fuel = m + 1 := ⟨fuel - 1, by omega⟩
  have hnode : ∃ first last, (run c grammar (fuel + 1) r simpleStatementBody
      s.tried).state.built = [.node .simpleStatement first last
        (exec c grammar (run c grammar fuel) r simpleStatementBody.body
          (s.tried.enter c .simpleStatement)).state.built] := by
    rw [run, simpleStatementBody, exec, Outcome.state_map, State.leave]
    dsimp only
    rw [show s.tried.built = [] from hs]
    exact ⟨_, _, rfl⟩
  obtain ⟨first, last, hnode⟩ := hnode
  obtain ⟨more, hmore⟩ := exec_statements_statement_prefix (fuel + 1) r heof hsemicolon
  rw [← hmore, hnode] at hhead
  cases hhead
  exact exec_simpleStatement_leading (s := s.tried.enter c .simpleStatement) r (by omega) he rfl
    hrule

/-- The leading rule of a script tells how its tokens start. -/
theorem parse_leading (o : Options) {tokens : List Token} (h : Listed tokens)
    {root statement : Tree} {rule : Rule} (hroot : (parse o .query tokens).root = some root)
    (hhead : root.children.head? = some statement)
    (hstatement : statement.isRule .simpleStatement = true)
    (hrule : statement.leadingRule? = some rule) :
    Opens (contextOf o tokens) (significant tokens) rule := by
  let opened : State (List Tree) := (State.initial tokens).enter (contextOf o tokens) .query
  have hfuel : 4 ≤ callDepth * ((significant tokens).length + 1) + 62 := by omega
  refine exec_statements_leading (s := opened) o.strategy.reaction hfuel (contextOf_ended h) rfl
    ?_ hstatement hrule
  rw [parse, Parse.ofOutcome, outcomeOf_script, Outcome.state_map] at hroot
  cases ho : exec (contextOf o tokens) grammar
      (run (contextOf o tokens) grammar (callDepth * ((significant tokens).length + 1) + 62))
      o.strategy.reaction statements opened with
  | aborted why s' =>
      rw [ho] at hroot
      cases hroot
      exact hhead
  | finished s' =>
      rw [ho] at hroot
      cases hroot
      exact head?_of_concat_token hhead hstatement

end FirstStatement

end Grammar

end MySqlAnalysis
