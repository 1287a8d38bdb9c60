import MySqlAnalysis.Proofs.Grammar.Preorder
import MySqlAnalysis.Proofs.Grammar.Terminators

/-!
# The rounds of a script

A script is read in rounds, each of which reads a semicolon or a statement
(`exec_statements_semicolon`, `exec_statements_statement`). The parts that are built
in one round stay in front of those of later rounds, as for every program that
builds no node around a part that is there already (`Program.appends`, `run_appends`),
so the first part of a script tells what its first round read
(`kindAt_of_first_statement`).
-/

set_option autoImplicit false

namespace MySqlAnalysis.Grammar

variable {φ : Type}

/-! ### Programs that only add parts -/

/-- Whether a program leaves the parts of the open node alone, `calls` telling which
phrases do. -/
def Program.appends (calls : φ → Bool) : Program φ → Bool
  | seq p q => p.appends calls && q.appends calls
  | cond _ p q => p.appends calls && q.appends calls
  | loop _ p => p.appends calls
  | wrap _ _ => false
  | attempt p q => p.appends calls && q.appends calls
  | resume p => p.appends calls
  | call phrase => calls phrase
  | _ => true

theorem prefix_leafPreorder : LeafPreorder (· <+: ·) where
  refl _ := List.prefix_rfl
  trans h h' := h.trans h'
  token _ _ := List.prefix_append _ _
  skipped _ _ := List.prefix_append _ _

section Appends

variable {c : Context} {rules : φ → Program φ} {calls : φ → Bool}
  {recur : Reaction → Program φ → State (List Tree) → Outcome (List Tree)}

/-- What was built stays when a statement is given up. -/
theorem prefix_resume (r : Reaction) (p : Program φ) (s : State (List Tree)) :
    (exec c rules recur r p s).state.built <+:
      (exec c rules recur r (.resume p) s).state.built := by
  rw [exec]
  split
  case h_1 s' ho =>
    rw [ho]
    exact prefix_leafPreorder.skipUpTo _ s'
  case h_2 => exact List.prefix_rfl

theorem exec_appends (hrules : ∀ phrase, calls phrase = true → (rules phrase).appends calls = true)
    (hrecur : ∀ (p : Program φ), p.appends calls = true →
      ∀ r s, s.built <+: (recur r p s).state.built)
    (p : Program φ) (h : p.appends calls = true) (r : Reaction) (s : State (List Tree)) :
    s.built <+: (exec c rules recur r p s).state.built := by
  have hchecked : Program.Hereditary fun p : Program φ => p.appends calls = true :=
    ⟨fun h => Bool.and_eq_true_iff.1 h, fun h => Bool.and_eq_true_iff.1 h, fun h => h,
      fun h => Bool.and_eq_true_iff.1 h, fun h => h⟩
  refine exec_relates prefix_leafPreorder hchecked ?_ ?_ (fun t p h => hrecur _ h)
    (fun phrase h => hrecur _ (hrules phrase h)) p h r s
  · intro rule p _ _ r s
    rw [exec, Outcome.state_map]
    exact List.prefix_append _ _
  · intro rule p h
    cases h

theorem run_appends (c : Context)
    (hrules : ∀ phrase, calls phrase = true → (rules phrase).appends calls = true) (fuel : Nat) :
    ∀ p : Program φ, p.appends calls = true → ∀ (r : Reaction) (s : State (List Tree)),
      s.built <+: (run c rules fuel r p s).state.built := by
  induction fuel with
  | zero => exact fun p h r s => List.prefix_rfl
  | succ fuel ih => exact fun p h r s => exec_appends hrules ih p h r s

end Appends

/-! ### Rounds -/

section Rounds

variable {β : Type} [Builder β] {c : Context} {s : State β}
  {recur : Reaction → Fragment → State β → Outcome β}

/-- The kinds that are tried before a statement is read. -/
def State.tried (s : State β) : State β :=
  { s with expected := noteKind (noteKind s.expected .eof) .semicolon }

theorem exec_statements_eof (r : Reaction) (h : c.kindAt s.ahead 0 = .eof) :
    exec c grammar recur r statements s =
      .finished { s with expected := noteKind s.expected .eof } := by
  have heval : Test.eval c s.ahead (.not (.is .eof)) s.expected =
      (false, noteKind s.expected .eof) := by
    simp [Test.eval, Test.is, h, noteKinds]
  rw [statements, exec, heval]

theorem exec_statements_semicolon (r : Reaction) (h : c.kindAt s.ahead 0 = .semicolon) :
    exec c grammar recur r statements s = recur r statements (s.tried.consume c) := by
  have heof : Test.eval c s.ahead (.not (.is .eof)) s.expected =
      (true, noteKind s.expected .eof) := by
    simp [Test.eval, Test.is, h, noteKinds]
  have hsemicolon : Test.eval c s.ahead (.is .semicolon) (noteKind s.expected .eof) =
      (true, s.tried.expected) := by
    simp [Test.eval, Test.is, h, noteKinds, State.tried]
  rw [statements, exec, heof]
  dsimp only
  rw [exec, hsemicolon]
  rfl

/-- A statement, up to its semicolon, and the rounds after it. -/
theorem exec_statements_statement (r : Reaction) (heof : c.kindAt s.ahead 0 ≠ .eof)
    (hsemicolon : c.kindAt s.ahead 0 ≠ .semicolon) :
    exec c grammar recur r statements s =
      ((exec c grammar recur r (.resume (.call .simpleStatement)) s.tried).andThen
        (exec c grammar recur r (.cond (.is .eof) .done (.resume (.expect .semicolon))))).andThen
          (recur r statements) := by
  have hfirst : Test.eval c s.ahead (.not (.is .eof)) s.expected =
      (true, noteKind s.expected .eof) := by
    simp [Test.eval, Test.is, heof, noteKinds]
  have hsecond : Test.eval c s.ahead (.is .semicolon) (noteKind s.expected .eof) =
      (false, s.tried.expected) := by
    simp [Test.eval, Test.is, hsemicolon, noteKinds, State.tried]
  rw [statements, exec, hfirst]
  dsimp only
  rw [exec, hsecond]
  rfl

end Rounds

/-! ### The first part of a script -/

/-- The programs between the statements of a script leave earlier parts alone. -/
theorem appends_simpleStatement (phrase : Phrase) (h : (phrase == .simpleStatement) = true) :
    (grammar phrase).appends (· == .simpleStatement) = true := by
  rw [beq_iff_eq.1 h]
  rfl

section FirstPart

variable {c : Context} {s : State (List Tree)} {fuel : Nat} {statement : Tree}

/-- A semicolon that a script starts with is its first part. -/
theorem exec_statements_semicolon_prefix (fuel : Nat) (r : Reaction)
    (h : c.kindAt s.ahead 0 = .semicolon) (hs : s.built = []) :
    [.token (s.current c).index] <+:
      (exec c grammar (run c grammar fuel) r statements s).state.built := by
  have htoken : (s.tried.consume c).built = [.token (s.current c).index] := by
    simp [State.consume, State.shift, State.tried, State.current, Builder.token, hs]
  rw [exec_statements_semicolon r h, ← htoken]
  exact run_appends c appends_simpleStatement fuel statements rfl r _

/-- What is built for a statement that a script starts with comes first. -/
theorem exec_statements_statement_prefix (fuel : Nat) (r : Reaction)
    (heof : c.kindAt s.ahead 0 ≠ .eof) (hsemicolon : c.kindAt s.ahead 0 ≠ .semicolon) :
    (run c grammar fuel r simpleStatementBody s.tried).state.built <+:
      (exec c grammar (run c grammar fuel) r statements s).state.built := by
  have happends := run_appends c appends_simpleStatement fuel
  have hcall : (exec c grammar (run c grammar fuel) r (.call .simpleStatement)
      s.tried).state.built <+: (exec c grammar (run c grammar fuel) r
        (.resume (.call .simpleStatement)) s.tried).state.built :=
    prefix_resume r _ _
  rw [exec_statements_statement r heof hsemicolon]
  exact prefix_leafPreorder.andThen (prefix_leafPreorder.andThen hcall
    (exec_appends appends_simpleStatement happends _ rfl r)) (happends statements rfl r)

/-- A script whose first part is a statement starts with one. -/
theorem kindAt_of_first_statement (r : Reaction) (hs : s.built = [])
    (hhead : (exec c grammar (run c grammar fuel) r statements s).state.built.head? =
      some statement)
    (hstatement : statement.isRule .simpleStatement = true) :
    c.kindAt s.ahead 0 ≠ .eof ∧ c.kindAt s.ahead 0 ≠ .semicolon := by
  constructor
  · intro heof
    rw [exec_statements_eof r heof] at hhead
    simp [hs] at hhead
  · intro hsemicolon
    obtain ⟨more, hmore⟩ := exec_statements_semicolon_prefix fuel r hsemicolon hs
    rw [← hmore] at hhead
    cases hhead
    cases hstatement

/-- A statement that comes first does so without the token that ends the input. -/
theorem head?_of_concat_token {parts : List Tree} {index : Nat}
    (hhead : (parts ++ [Tree.token index]).head? = some statement)
    (hstatement : statement.isRule .simpleStatement = true) : parts.head? = some statement := by
  cases parts with
  | nil =>
      cases hhead
      cases hstatement
  | cons t ts => exact hhead

end FirstPart

/-- The run of a script: the node is opened, the statements are read, then the end of
the input. -/
theorem outcomeOf_script (o : Options) (tokens : List Token) :
    outcomeOf o .query tokens =
      Outcome.map
        (Outcome.andThen
          (exec (contextOf o tokens) grammar
            (run (contextOf o tokens) grammar
              (callDepth * ((significant tokens).length + 1) + 62))
            o.strategy.reaction statements
            ((State.initial tokens).enter (contextOf o tokens) .query))
          (fun s => .finished (s.consume (contextOf o tokens))))
        (State.leave (contextOf o tokens) .query (State.initial tokens)) := by
  have hfuel : fuelFor tokens = callDepth * ((significant tokens).length + 1) + 62 + 2 := by
    rw [fuelFor, callDepth]
    omega
  rw [outcomeOf, outcomeIn, hfuel]
  rfl

end MySqlAnalysis.Grammar
