import MySqlAnalysis.Proofs.Grammar.Rounds
import MySqlAnalysis.Proofs.Grammar.StatementEnd
import MySqlAnalysis.Proofs.Grammar.Strategy

/-!
# Reading a script is reading its statements

Statements that are read alone without a report (`Separate`) can be joined to a script
by semicolons, each moved to its place (`Joins`). The script is then read without a
report, and the parts of its root are the trees of the statements, moved, with the
semicolons between them and the end of the input after them (`parse_joins`).

One round of the script reads one statement as it is read alone (`exec_round`); what the
script has read before only matters for where the statement starts.
-/

set_option autoImplicit false

namespace MySqlAnalysis.Grammar

/-! ### Statements and scripts -/

theorem ne_boundary {kind : TokenKind} (h : boundaryKinds.contains kind = false) :
    kind ≠ .eof ∧ kind ≠ .semicolon := by
  constructor <;>
    · rintro rfl
      cases h

/-- A statement that stands alone: tokens that the grammar sees and that end no
statement, and the end of the input, numbered by their places. -/
structure Separate where
  tokens : List Token
  ending : Token
  nonempty : tokens ≠ []
  shown : ∀ t ∈ tokens, t.channel = .default
  inner : ∀ t ∈ tokens, boundaryKinds.contains t.kind = false
  ends : ending.kind = .eof
  endShown : ending.channel = .default
  numbered : (tokens ++ [ending]).map Token.index = List.range (tokens.length + 1)

namespace Separate

/-- The tokens of the statement and the end of the input. -/
def all (x : Separate) : List Token := x.tokens ++ [x.ending]

/-- The tree of the statement when it is read alone. -/
def statement? (o : Options) (x : Separate) : Option Tree :=
  (parse o .query x.all).root.bind fun root => root.children.find? (·.isRule .simpleStatement)

variable (x : Separate)

theorem ending_index : x.ending.index = x.tokens.length := by
  have h := x.numbered
  rw [List.map_append, List.range_succ] at h
  exact List.singleton_inj.1 (List.append_inj' h rfl).2

theorem significant_all : significant x.all = x.all := by
  refine List.filter_eq_self.2 fun t ht => beq_iff_eq.2 ?_
  rcases List.mem_append.1 ht with ht | ht
  · exact x.shown t ht
  · rw [List.mem_singleton.1 ht]
    exact x.endShown

theorem listed : Listed x.all where
  numbered := by
    rw [all, x.numbered, List.length_append, List.length_singleton]
  inner t ht := by
    rw [all, List.dropLast_concat] at ht
    exact beq_eq_false_iff_ne.2 (ne_boundary (x.inner t ht)).1
  shown t ht _ := by
    rw [← x.significant_all] at ht
    exact (List.mem_filter.1 ht).2

end Separate

/-- The tokens of a script from the place `n` on: each statement is moved to its place and
followed by a semicolon, the last one by the end of the input. -/
inductive Joins : (n : Nat) → List Separate → List Token → Prop
  | nil {n : Nat} {e : Token} (he : e.kind = .eof) (hshown : e.channel = .default)
      (hindex : e.index = n) : Joins n [] [e]
  | last {n : Nat} {x : Separate} {bytes : Int} {moved : List Token} {e : Token}
      (hmoved : List.Forall₂ (Token.Moved n bytes) x.tokens moved) (he : e.kind = .eof)
      (hshown : e.channel = .default) (hindex : e.index = n + x.tokens.length) :
      Joins n [x] (moved ++ [e])
  | cons {n : Nat} {x y : Separate} {xs : List Separate} {bytes : Int} {moved rest : List Token}
      {b : Token} (hmoved : List.Forall₂ (Token.Moved n bytes) x.tokens moved)
      (hb : b.kind = .semicolon) (hshown : b.channel = .default)
      (hindex : b.index = n + x.tokens.length)
      (h : Joins (n + x.tokens.length + 1) (y :: xs) rest) :
      Joins n (x :: y :: xs) (moved ++ b :: rest)

/-- The parts of a script from the place `n` on: the trees of the statements, moved to
their places, each followed by the token after it. -/
def scriptParts : (n : Nat) → List (Separate × Tree) → List Tree
  | n, [] => [.token n]
  | n, [(x, t)] => [t.moved n, .token (n + x.tokens.length)]
  | n, (x, t) :: y :: xs =>
    t.moved n :: .token (n + x.tokens.length) ::
      scriptParts (n + x.tokens.length + 1) (y :: xs)

/-! ### Single steps of the two runs -/

theorem Beside.of_moved {slot : Slot} {xs xs' rest : List Token} {e b : Token}
    (hmoved : List.Forall₂ (Token.Moved slot.tokens slot.bytes) xs xs')
    (hinner : ∀ t ∈ xs, boundaryKinds.contains t.kind = false) (he : e.kind = .eof)
    (hb : boundaryKinds.contains b.kind = true) (hindex : b.index = e.index + slot.tokens)
    (hafter : slot.after = b :: rest) : Beside slot (xs ++ [e]) (xs' ++ b :: rest) := by
  induction hmoved with
  | nil => exact .ending he hb hindex hafter
  | cons ht hts ih =>
      rw [List.forall_mem_cons] at hinner
      exact .token hinner.1 ht (ih hinner.2)

theorem Agrees.exists_finished {slot : Slot} {strict : Bool} {s : State (List Tree)}
    {o' : Outcome (List Tree)} (h : Agrees slot strict (.finished s) o') :
    ∃ s', o' = .finished s' ∧ s.Alongside slot s' := by
  cases h with
  | finished h => exact ⟨_, rfl, h⟩

section Steps

variable {c : Context} {s u : State (List Tree)} {fuel : Nat}

/-- A run that bails does not resume. -/
theorem resume_finished {p : Fragment}
    (h : exec c grammar (run c grammar fuel) .bail (.resume p) s = .finished u) :
    exec c grammar (run c grammar fuel) .bail p s = .finished u := by
  have hfollows : Follows c .bail s (exec c grammar (run c grammar fuel) .bail p s) :=
    exec_follows (run_follows c grammar fuel) p .bail s
  rw [exec] at h
  split at h
  case h_1 s' ho => cases hfollows.stops _ s' ho
  case h_2 => exact h

theorem resume_of_finished {r : Reaction} {p : Fragment}
    (h : exec c grammar (run c grammar fuel) r p s = .finished u) :
    exec c grammar (run c grammar fuel) r (.resume p) s = .finished u := by
  rw [exec, h]

/-- What was built before a node stays in front of it. -/
theorem run_node_built {r : Reaction} {rule : Rule} {p : Fragment}
    (h : run c grammar fuel r (.node rule p) { s with built := [] } = .finished u) :
    run c grammar fuel r (.node rule p) s = .finished { u with built := s.built ++ u.built } := by
  cases fuel with
  | zero => cases h
  | succ fuel =>
      rw [run, exec] at h ⊢
      obtain ⟨v, hv, rfl⟩ := Outcome.map_eq_finished h
      have hsame : exec c grammar (run c grammar fuel) r p (s.enter c rule) = .finished v := hv
      rw [hsame]
      rfl

theorem run_node_finished {r : Reaction} {rule : Rule} {p : Fragment}
    (h : run c grammar fuel r (.node rule p) s = .finished u) :
    ∃ first last children, u.built = s.built ++ [.node rule first last children] := by
  cases fuel with
  | zero => cases h
  | succ fuel =>
      rw [run, exec] at h
      obtain ⟨v, -, rfl⟩ := Outcome.map_eq_finished h
      exact ⟨_, _, _, rfl⟩

/-- The loop of a script ends at the end of the input. -/
theorem run_statements_eof (hfuel : 0 < fuel) (h : c.kindAt s.ahead 0 = .eof) :
    run c grammar fuel .bail statements s =
      .finished { s with expected := noteKind s.expected .eof } := by
  obtain ⟨fuel, rfl⟩ : ∃ n, fuel = n + 1 := ⟨fuel - 1, by omega⟩
  exact exec_statements_eof .bail h

/-- After a statement the input ends or a semicolon is required. -/
def afterStatement : Fragment :=
  .cond (.is .eof) .done (.resume (.expect .semicolon))

theorem afterStatement_eof (r : Reaction) (h : c.kindAt s.ahead 0 = .eof) :
    exec c grammar (run c grammar fuel) r afterStatement s =
      .finished { s with expected := noteKind s.expected .eof } := by
  have heval : Test.eval c s.ahead (.is .eof) s.expected = (true, noteKind s.expected .eof) := by
    simp [Test.eval, Test.is, h, noteKinds]
  rw [afterStatement, exec, heval]
  rfl

theorem afterStatement_semicolon (r : Reaction) (h : c.kindAt s.ahead 0 = .semicolon) :
    exec c grammar (run c grammar fuel) r afterStatement s = .finished (s.tried.consume c) := by
  have heval : Test.eval c s.ahead (.is .eof) s.expected = (false, noteKind s.expected .eof) := by
    simp [Test.eval, Test.is, h, noteKinds]
  rw [afterStatement, exec, heval]
  refine resume_of_finished ?_
  rw [exec, State.expect]
  simp only [h, BEq.rfl, if_true]
  rfl

/-- A statement without a semicolon that is read to its end ends with the input. -/
theorem kindAt_of_afterStatement (hne : c.kindAt s.ahead 0 ≠ .semicolon)
    (h : exec c grammar (run c grammar fuel) .bail afterStatement s = .finished u) :
    c.kindAt s.ahead 0 = .eof := by
  by_contra heof
  have heval : Test.eval c s.ahead (.is .eof) s.expected = (false, noteKind s.expected .eof) := by
    simp [Test.eval, Test.is, heof, noteKinds]
  rw [afterStatement, exec, heval] at h
  exact hne (expect_finished (by decide) (resume_finished h)).1

end Steps

/-! ### One statement -/

section Statement

variable {o : Options} {x : Separate}

theorem Separate.kindAt_initial (o : Options) (x : Separate) :
    (contextOf o x.all).kindAt (State.initial (β := List Tree) x.all).ahead 0 ≠ .eof ∧
      (contextOf o x.all).kindAt (State.initial (β := List Tree) x.all).ahead 0 ≠ .semicolon := by
  obtain ⟨t, ts, ht⟩ := List.exists_cons_of_ne_nil x.nonempty
  have hinner := x.inner t (by rw [ht]; exact List.mem_cons_self)
  have hahead : (State.initial (β := List Tree) x.all).ahead = x.all := x.significant_all
  rw [hahead, Separate.all, ht]
  exact ne_boundary hinner

/-- A statement that is read alone without a report is read to its end by a run that
bails, which goes through the same states. -/
theorem Separate.exists_finished (h : (parse (o.withStrategy .recover) .query x.all).reports = []) :
    ∃ s, outcomeOf (o.withStrategy .bail) .query x.all = .finished s ∧
      (parse (o.withStrategy .recover) .query x.all).root = s.built.head? := by
  obtain ⟨s, hbail, hrecover⟩ := exists_finished_of_silent o .query x.listed h
  refine ⟨s, hbail, ?_⟩
  rw [parse, hrecover]
  rfl

/-- The state in front of a statement that stands alone. -/
def Separate.start (o : Options) (x : Separate) : State (List Tree) :=
  ((State.initial x.all).enter (contextOf o x.all) .query).tried

/-- The bound for the calls inside each other in a statement that stands alone. -/
def Separate.fuel (x : Separate) : Nat := callDepth * (x.all.length + 1) + 62

theorem Separate.room_lt_fuel (x : Separate) : callDepth * x.all.length + 3 < x.fuel := by
  rw [Separate.fuel, Nat.mul_succ, callDepth]
  omega

theorem Separate.ready (o : Options) (x : Separate) :
    Ready (contextOf o x.all) contractOf (callDepth * x.all.length + 3) simpleStatementBody []
      (x.start o) := by
  have hkept := contractOf_kept .simpleStatement _ rfl
  simp only [Contract.allows, Bool.and_eq_true, decide_eq_true_eq] at hkept
  have hended := contextOf_ended (o := o) x.listed
  have hahead : (x.start o).ahead = x.all := x.significant_all
  refine ⟨hkept.1.1, Facts.hold_nil, hended, ?_⟩
  rw [hahead]
  exact Nat.add_le_add_left hkept.1.2 _

/-- What is left of a statement that stands alone holds no semicolon. -/
theorem Separate.kindAt_ne_semicolon {s : State (List Tree)} (h : (x.start o).Reads s) :
    (contextOf o x.all).kindAt s.ahead 0 ≠ .semicolon := by
  have hending : (contextOf o x.all).ending.kind = .eof := beq_iff_eq.1 (endingOf_isEof x.all)
  obtain ⟨read, hread, -⟩ := h
  have hall : x.all = read ++ s.ahead := x.significant_all.symm.trans hread
  cases hahead : s.ahead with
  | nil =>
      show (contextOf o x.all).ending.kind ≠ .semicolon
      rw [hending]
      simp
  | cons t ts =>
      have ht : t ∈ x.tokens ++ [x.ending] := by
        rw [← Separate.all, hall, hahead]
        simp
      show t.kind ≠ .semicolon
      rcases List.mem_append.1 ht with ht | ht
      · exact (ne_boundary (x.inner t ht)).2
      · rw [List.mem_singleton.1 ht, x.ends]
        simp

/-- The run over a statement that stands alone: the statement is read up to the end of the
input, and its tree is the first part of the root. -/
theorem Separate.run_statement (h : (parse (o.withStrategy .recover) .query x.all).reports = []) :
    ∃ s t, run (contextOf o x.all) grammar x.fuel .bail simpleStatementBody (x.start o) =
        .finished s ∧ (contextOf o x.all).kindAt s.ahead 0 = .eof ∧ s.built = [t] ∧
          x.statement? (o.withStrategy .recover) = some t := by
  obtain ⟨final, hbail, hroot⟩ := Separate.exists_finished h
  rw [outcomeOf_script, x.significant_all] at hbail
  obtain ⟨s₁, hs₁, rfl⟩ := Outcome.map_eq_finished hbail
  obtain ⟨s₂, hs₂, hlast⟩ := Outcome.andThen_eq_finished hs₁
  cases hlast
  -- the first round reads the statement
  have hround : ((exec (contextOf o x.all) grammar (run (contextOf o x.all) grammar x.fuel) .bail
        (.resume (.call .simpleStatement)) (x.start o)).andThen
          (exec (contextOf o x.all) grammar (run (contextOf o x.all) grammar x.fuel) .bail
            afterStatement)).andThen (run (contextOf o x.all) grammar x.fuel .bail statements) =
      .finished s₂ :=
    (exec_statements_statement .bail (x.kindAt_initial o).1 (x.kindAt_initial o).2).symm.trans hs₂
  obtain ⟨s₃, hs₃, hnext⟩ := Outcome.andThen_eq_finished hround
  obtain ⟨s, hs, hafter⟩ := Outcome.andThen_eq_finished hs₃
  have hrun : run (contextOf o x.all) grammar x.fuel .bail simpleStatementBody (x.start o) =
      .finished s := resume_finished hs
  have hflow := run_flows (contextOf o x.all) contractOf_depth contractOf_kept x.fuel
    simpleStatementBody _ x.room_lt_fuel .bail [] (x.start o) (x.ready o).ok (x.ready o).holds
    (x.ready o).ended (x.ready o).fits
  rw [hrun] at hflow
  have hreads : (x.start o).Reads s := hflow.reads
  -- without a semicolon, the input ends after it
  have heof := kindAt_of_afterStatement (Separate.kindAt_ne_semicolon hreads) hafter
  cases (afterStatement_eof .bail heof).symm.trans hafter
  have hpos : 0 < x.fuel := lt_of_le_of_lt (Nat.zero_le _) x.room_lt_fuel
  cases (run_statements_eof (c := contextOf o x.all)
    (s := { s with expected := noteKind s.expected .eof }) hpos heof).symm.trans hnext
  obtain ⟨first, last, children, hbuilt⟩ := run_node_finished hrun
  refine ⟨s, .node .simpleStatement first last children, hrun, heof, hbuilt, ?_⟩
  rw [Separate.statement?, hroot]
  show List.find? _ (s.built ++ _) = _
  rw [hbuilt]
  rfl

/-- A statement in a script is read as it is read alone, up to the token that follows it. -/
theorem Separate.run_in_script
    (h : (parse (o.withStrategy .recover) .query x.all).reports = []) {n : Nat} {bytes : Int}
    {moved rest : List Token} {b : Token}
    (hmoved : List.Forall₂ (Token.Moved n bytes) x.tokens moved)
    (hb : boundaryKinds.contains b.kind = true) (hindex : b.index = n + x.tokens.length)
    {c' : Context} (hc : (contextOf o x.all).Like c') {fuel' : Nat} (hfuel : x.fuel ≤ fuel')
    {s' : State (List Tree)} (hahead : s'.ahead = moved ++ b :: rest)
    (hlast : ∀ j ∈ s'.last, j < n) :
    ∃ v t, run c' grammar fuel' .bail simpleStatementBody s' = .finished v ∧
      v.ahead = b :: rest ∧ v.built = s'.built ++ [t.moved n] ∧
        x.statement? (o.withStrategy .recover) = some t := by
  obtain ⟨s, t, hrun, heof, hbuilt, ht⟩ := Separate.run_statement h
  -- what was built before the statement is left out here and put back at the end
  have halong : (x.start o).Alongside ⟨n, bytes, b :: rest⟩ { s' with built := [] } := by
    refine ⟨?_, ?_, rfl⟩
    · show Beside _ (significant x.all) s'.ahead
      rw [x.significant_all, hahead]
      refine .of_moved hmoved x.inner x.ends hb ?_ rfl
      rw [x.ending_index, hindex, Nat.add_comm]
    · show s'.last.filter (n ≤ ·) = none
      refine Option.filter_eq_none_iff.2 fun j hj => ?_
      have hlt := hlast j hj
      simpa using hlt
  have hagrees := (run_alike hc x.fuel fuel' hfuel).2 .simpleStatement _ rfl .bail _ _ _
    x.room_lt_fuel (by decide) (x.ready o) halong
  have hrun' : run (contextOf o x.all) grammar x.fuel .bail (grammar .simpleStatement)
      (x.start o) = .finished s := hrun
  rw [hrun'] at hagrees
  obtain ⟨v, hv, hsv⟩ := hagrees.exists_finished
  refine ⟨_, t, run_node_built hv, ?_, ?_, ht⟩
  · exact hsv.ahead.eq_after heof
  · show s'.built ++ v.built = _
    rw [hsv.built, hbuilt]
    rfl

end Statement

/-! ### All statements -/

section Script

variable {o : Options} {c' : Context}

/-- The first token of a statement in a script starts it. -/
theorem kindAt_of_moved {x : Separate} {n : Nat} {bytes : Int} {moved : List Token}
    (hmoved : List.Forall₂ (Token.Moved n bytes) x.tokens moved) (rest : List Token) :
    c'.kindAt (moved ++ rest) 0 ≠ .eof ∧ c'.kindAt (moved ++ rest) 0 ≠ .semicolon := by
  obtain ⟨t, ts, ht⟩ := List.exists_cons_of_ne_nil x.nonempty
  have hinner := x.inner t (by rw [ht]; exact List.mem_cons_self)
  rw [ht] at hmoved
  cases hmoved with
  | @cons _ t' _ ts' hhead htail =>
      show t'.kind ≠ .eof ∧ t'.kind ≠ .semicolon
      rw [hhead.kind]
      exact ne_boundary hinner

/-- What is enough for a script is enough for its first statement. -/
theorem Separate.fuel_le {x : Separate} {n fuel : Nat} {bytes : Int} {moved rest : List Token}
    {b : Token} (hmoved : List.Forall₂ (Token.Moved n bytes) x.tokens moved)
    (hfuel : callDepth * ((moved ++ b :: rest).length + 1) + 62 ≤ fuel) : x.fuel ≤ fuel := by
  have hlength := hmoved.length_eq
  simp only [Separate.fuel, Separate.all, List.length_append, List.length_cons, List.length_nil,
    callDepth] at hfuel ⊢
  omega

/-- One round of a script: a statement is read, and after it the input ends or a
semicolon is read. -/
theorem exec_round {x : Separate} (h : (parse (o.withStrategy .recover) .query x.all).reports = [])
    {n : Nat} {bytes : Int} {moved rest : List Token} {b : Token}
    (hmoved : List.Forall₂ (Token.Moved n bytes) x.tokens moved)
    (hb : boundaryKinds.contains b.kind = true) (hindex : b.index = n + x.tokens.length)
    (hc : (contextOf o x.all).Like c') {fuel : Nat} (hfuel : x.fuel ≤ fuel)
    {s : State (List Tree)} (hahead : s.ahead = moved ++ b :: rest) (hlast : ∀ j ∈ s.last, j < n) :
    ∃ v t, exec c' grammar (run c' grammar fuel) .bail statements s =
        (exec c' grammar (run c' grammar fuel) .bail afterStatement v).andThen
          (run c' grammar fuel .bail statements) ∧
      v.ahead = b :: rest ∧ v.built = s.built ++ [t.moved n] ∧
        x.statement? (o.withStrategy .recover) = some t := by
  have hfirst : c'.kindAt s.ahead 0 ≠ .eof ∧ c'.kindAt s.ahead 0 ≠ .semicolon := by
    rw [hahead]
    exact kindAt_of_moved hmoved (b :: rest)
  have hahead' : s.tried.ahead = moved ++ b :: rest := hahead
  obtain ⟨v, t, hrun, hv⟩ := Separate.run_in_script h hmoved hb hindex hc hfuel hahead' hlast
  refine ⟨v, t, ?_, hv⟩
  have hcall : exec c' grammar (run c' grammar fuel) .bail (.resume (.call .simpleStatement))
      s.tried = .finished v := resume_of_finished hrun
  rw [exec_statements_statement .bail hfirst.1 hfirst.2, hcall]
  rfl

/-- The statements of a script are read in order, each as it is read alone. -/
theorem exec_joins (hc : ∀ x : Separate, (contextOf o x.all).Like c') {n : Nat}
    {xs : List Separate} {tokens : List Token} (h : Joins n xs tokens) :
    (∀ x ∈ xs, (parse (o.withStrategy .recover) .query x.all).reports = []) →
      ∀ (fuel : Nat) (s : State (List Tree)), s.ahead = tokens → (∀ j ∈ s.last, j < n) →
        callDepth * (tokens.length + 1) + 62 ≤ fuel →
          ∃ u trees, exec c' grammar (run c' grammar fuel) .bail statements s = .finished u ∧
            xs.map (Separate.statement? (o.withStrategy .recover)) = trees.map some ∧
              u.built ++ [.token (u.current c').index] =
                s.built ++ scriptParts n (xs.zip trees) := by
  induction h with
  | @nil n e he hshown hindex =>
      intro hclean fuel s hahead hlast hfuel
      have heof : c'.kindAt s.ahead 0 = .eof := by rw [hahead]; exact he
      refine ⟨_, [], exec_statements_eof .bail heof, rfl, ?_⟩
      have hcurrent : c'.peek s.ahead 0 = e := by rw [hahead]; rfl
      show s.built ++ [.token (c'.peek s.ahead 0).index] = _
      rw [hcurrent, hindex]
      rfl
  | @last n x bytes moved e hmoved he hshown hindex =>
      intro hclean fuel s hahead hlast hfuel
      have hx := hclean x (List.mem_singleton_self x)
      have hroom := Separate.fuel_le hmoved hfuel
      obtain ⟨v, t, hround, hv, hbuilt, ht⟩ :=
        exec_round hx hmoved (by rw [he]; rfl) hindex (hc x) hroom hahead hlast
      have heof : c'.kindAt v.ahead 0 = .eof := by rw [hv]; exact he
      have hpos : 0 < fuel := lt_of_lt_of_le (by rw [Separate.fuel]; omega) hroom
      have hexec : exec c' grammar (run c' grammar fuel) .bail statements s =
          .finished { v with expected := noteKind (noteKind v.expected .eof) .eof } := by
        rw [hround, afterStatement_eof .bail heof, Outcome.andThen_finished]
        exact run_statements_eof (s := { v with expected := _ }) hpos heof
      have hcurrent : c'.peek v.ahead 0 = e := by rw [hv]; rfl
      refine ⟨_, [t], hexec, by rw [List.map_singleton, ht]; rfl, ?_⟩
      show v.built ++ [.token (c'.peek v.ahead 0).index] = _
      rw [hcurrent, hindex, hbuilt, List.append_assoc]
      rfl
  | @cons n x y xs bytes moved rest b hmoved hb hshown hindex h ih =>
      intro hclean fuel s hahead hlast hfuel
      rw [List.forall_mem_cons] at hclean
      have hroom := Separate.fuel_le hmoved hfuel
      obtain ⟨v, t, hround, hv, hbuilt, ht⟩ :=
        exec_round hclean.1 hmoved (by rw [hb]; rfl) hindex (hc x) hroom hahead hlast
      have hsemicolon : c'.kindAt v.ahead 0 = .semicolon := by rw [hv]; exact hb
      have hcurrent : c'.peek v.ahead 0 = b := by rw [hv]; rfl
      obtain ⟨fuel, rfl⟩ : ∃ k, fuel = k + 1 := ⟨fuel - 1, by omega⟩
      -- the next round starts after the semicolon
      have hrest : (v.tried.consume c').ahead = rest := by
        rw [consume_ahead (s := v.tried) (by
          show c'.kindAt v.ahead 0 ≠ .eof
          rw [hsemicolon]; simp)]
        show v.ahead.tail = rest
        rw [hv]
        rfl
      have hafter : ∀ j ∈ (v.tried.consume c').last, j < n + x.tokens.length + 1 := by
        rintro j ⟨⟩
        show (c'.peek v.ahead 0).index < _
        rw [hcurrent, hindex]
        exact Nat.lt_succ_self _
      have hfuel' : callDepth * (rest.length + 1) + 62 ≤ fuel := by
        simp only [List.length_append, List.length_cons, callDepth] at hfuel ⊢
        omega
      obtain ⟨u, trees, hu, htrees, hparts⟩ := ih hclean.2 fuel _ hrest hafter hfuel'
      refine ⟨u, t :: trees, ?_, by rw [List.map_cons, ht, htrees]; rfl, ?_⟩
      · rw [hround, afterStatement_semicolon .bail hsemicolon, Outcome.andThen_finished]
        exact hu
      · rw [hparts]
        cases trees with
        | nil => cases htrees
        | cons t' trees =>
            show (v.built ++ [.token (c'.peek v.ahead 0).index]) ++ _ = _
            rw [hcurrent, hindex, hbuilt]
            simp [scriptParts]

end Script

theorem channel_of_moved {n : Nat} {bytes : Int} {ts moved : List Token}
    (h : List.Forall₂ (Token.Moved n bytes) ts moved) (hts : ∀ t ∈ ts, t.channel = .default) :
    ∀ t ∈ moved, t.channel = .default := by
  induction h with
  | nil => exact hts
  | @cons t t' ts ts' ht hrest ih =>
      rw [List.forall_mem_cons] at hts ⊢
      exact ⟨ht.channel.trans hts.1, ih hts.2⟩

theorem Joins.shown {n : Nat} {xs : List Separate} {tokens : List Token} (h : Joins n xs tokens) :
    ∀ t ∈ tokens, t.channel = .default := by
  induction h with
  | nil he hshown hindex => exact List.forall_mem_singleton.2 hshown
  | @last n x bytes moved e hmoved he hshown hindex =>
      exact List.forall_mem_append.2
        ⟨channel_of_moved hmoved x.shown, List.forall_mem_singleton.2 hshown⟩
  | @cons n x y xs bytes moved rest b hmoved hb hshown hindex h ih =>
      exact List.forall_mem_append.2
        ⟨channel_of_moved hmoved x.shown, List.forall_mem_cons.2 ⟨hshown, ih⟩⟩

/-- Reading a script is reading its statements: when each is read alone without a report,
so is the script, and the parts of its root are their trees, moved to their places, with
the semicolons between them and the end of the input after them. -/
theorem parse_joins (o : Options) {xs : List Separate} {tokens : List Token}
    (h : Joins 0 xs tokens)
    (hclean : ∀ x ∈ xs, (parse (o.withStrategy .recover) .query x.all).reports = []) :
    (parse (o.withStrategy .recover) .query tokens).reports = [] ∧
      ∃ root trees, (parse (o.withStrategy .recover) .query tokens).root = some root ∧
        xs.map (Separate.statement? (o.withStrategy .recover)) = trees.map some ∧
          root.children = scriptParts 0 (xs.zip trees) := by
  have hsignificant : significant tokens = tokens :=
    List.filter_eq_self.2 fun t ht => beq_iff_eq.2 (h.shown t ht)
  have hlike : ∀ x : Separate, (contextOf o x.all).Like (contextOf o tokens) :=
    fun x => ⟨rfl, rfl, rfl, beq_iff_eq.1 (endingOf_isEof x.all)⟩
  obtain ⟨u, trees, hu, htrees, hparts⟩ := exec_joins hlike h hclean
    (callDepth * ((significant tokens).length + 1) + 62)
    ((State.initial tokens).enter (contextOf o tokens) .query) hsignificant
    (fun j hj => nomatch hj) (by rw [hsignificant])
  have hbail : outcomeOf (o.withStrategy .bail) .query tokens =
      .finished (State.leave (contextOf o tokens) .query (State.initial tokens)
        (u.consume (contextOf o tokens))) := by
    rw [outcomeOf_script]
    exact congrArg (fun out => Outcome.map (Outcome.andThen out _) _) hu
  have hlock : Lockstep (State.initial tokens) (outcomeOf (o.withStrategy .bail) .query tokens)
      (outcomeOf (o.withStrategy .recover) .query tokens) :=
    outcomeIn_lockstep o .query tokens (List Tree)
  rw [hbail] at hlock
  rw [parse]
  generalize outcomeOf (o.withStrategy .recover) .query tokens = outcome at hlock
  cases hlock with
  | finished hreports =>
      exact ⟨hreports, _, trees, rfl, htrees, hparts⟩

/-- `SELECT f()` on its own. -/
def selectAlone : Separate where
  tokens :=
    [⟨.keyword .SELECT, .default, "SELECT", 0, 5, 1, 0, 0⟩,
     ⟨.identifier, .default, "f", 7, 7, 1, 7, 1⟩,
     ⟨.openParen, .default, "(", 8, 8, 1, 8, 2⟩,
     ⟨.closeParen, .default, ")", 9, 9, 1, 9, 3⟩]
  ending := .ending ⟨10, 1, 10⟩ 4
  nonempty := by decide
  shown := by decide
  inner := by decide
  ends := rfl
  endShown := rfl
  numbered := rfl

/-- `COMMIT` on its own. -/
def commitAlone : Separate where
  tokens := [⟨.keyword .COMMIT, .default, "COMMIT", 0, 5, 1, 0, 0⟩]
  ending := .ending ⟨6, 1, 6⟩ 1
  nonempty := by decide
  shown := by decide
  inner := by decide
  ends := rfl
  endShown := rfl
  numbered := rfl

/-- `SELECT f();COMMIT`: the call stays attached to its parenthesis, and the second
statement is moved by five tokens. -/
theorem parse_joins_select_commit :
    let options : Options := ⟨⟨80000⟩, .empty, .speculative, .recover⟩
    let commit : List Token :=
      [⟨.semicolon, .default, ";", 10, 10, 1, 10, 4⟩,
       ⟨.keyword .COMMIT, .default, "COMMIT", 11, 16, 1, 11, 5⟩,
       .ending ⟨17, 1, 17⟩ 6]
    (parse options .query (selectAlone.tokens ++ commit)).reports = [] ∧
      ∃ root trees, (parse options .query (selectAlone.tokens ++ commit)).root = some root ∧
        [selectAlone, commitAlone].map (Separate.statement? options) = trees.map some ∧
          root.children = scriptParts 0 ([selectAlone, commitAlone].zip trees) := by
  have hmoved : List.Forall₂ (Token.Moved 5 11) commitAlone.tokens
      [⟨.keyword .COMMIT, .default, "COMMIT", 11, 16, 1, 11, 5⟩] :=
    .cons ⟨rfl, rfl, rfl, rfl, rfl, rfl⟩ .nil
  have hsecond : Joins 5 [commitAlone]
      ([⟨.keyword .COMMIT, .default, "COMMIT", 11, 16, 1, 11, 5⟩] ++ [.ending ⟨17, 1, 17⟩ 6]) :=
    .last hmoved rfl rfl rfl
  have hfirst : List.Forall₂ (Token.Moved 0 0) selectAlone.tokens selectAlone.tokens :=
    List.forall₂_same.2 fun t _ =>
      ⟨rfl, rfl, rfl, rfl, (Int.add_zero _).symm, (Int.add_zero _).symm⟩
  exact parse_joins ⟨⟨80000⟩, .empty, .speculative, .recover⟩
    (.cons hfirst rfl rfl rfl hsecond) (by decide +kernel)

end MySqlAnalysis.Grammar
