import MySqlAnalysis.Proofs.Grammar.Formula
import MySqlAnalysis.Proofs.Grammar.Leading
import MySqlAnalysis.Proofs.Grammar.Termination

/-!
# Climbing from level to level

Operators are read by a loop that takes those above some power and reads the operand
after each of them with a larger power. The powers grow with the ranks of the operators
(`Ladder`), so that a graded formula is read as it groups: each operand is read up to an
operator that binds looser, and the node of an operator is put around the operands on
both sides of it (`Climber.builds`).
-/

set_option autoImplicit false

namespace MySqlAnalysis.Grammar

/-! ### What a program builds from given tokens -/

/-- Wherever the tokens `read` come next, with `rest` behind them, and the parts `before`
are built, the program reads just these tokens, reports nothing and leaves the parts
`after`. -/
def Builds (c : Context) (r : Reaction) (p : Fragment) (read rest : List Token)
    (before after : List Tree) : Prop :=
  ∀ s : State (List Tree), s.ahead = read ++ rest → s.built = before →
    ∃ u, Evaluates c grammar r p s (.finished u) ∧ u.ahead = rest ∧ u.built = after ∧
      u.reports = s.reports ∧ u.last = (read.getLast?.map Token.index).or s.last

namespace Builds

variable {c : Context} {r : Reaction} {p q : Fragment} {t : Test} {read more rest : List Token}
  {before between after : List Tree}

theorem done : Builds c r .done [] rest before before :=
  fun s hahead hbuilt => ⟨s, .done, hahead, hbuilt, rfl, rfl⟩

theorem advance {u : Token} (hu : u.isEof = false) :
    Builds c r .advance [u] rest before (before ++ [.token u.index]) := by
  intro s hahead hbuilt
  have hcurrent : s.current c = u := by
    rw [State.current, hahead]
    rfl
  refine ⟨s.consume c, .advance, ?_, ?_, rfl, ?_⟩
  · simp [State.consume, State.shift, hcurrent, hu, hahead]
  · simp [State.consume, State.shift, hcurrent, hbuilt, Builder.token]
  · simp [State.consume, State.shift, hcurrent]

/-- The tokens of two programs, one after the other. -/
theorem seq (hp : Builds c r p read (more ++ rest) before between)
    (hq : Builds c r q more rest between after) :
    Builds c r (.seq p q) (read ++ more) rest before after := by
  intro s hahead hbuilt
  rw [List.append_assoc] at hahead
  obtain ⟨u, hpu, huahead, hubuilt, hureports, hulast⟩ := hp s hahead hbuilt
  obtain ⟨v, hqv, hvahead, hvbuilt, hvreports, hvlast⟩ := hq u huahead hubuilt
  refine ⟨v, .seq hpu hqv, hvahead, hvbuilt, hvreports.trans hureports, ?_⟩
  rw [hvlast, hulast, List.getLast?_append, Option.map_or, Option.or_assoc]

/-- The second program reads nothing. -/
theorem seqNil (hp : Builds c r p read rest before between)
    (hq : Builds c r q [] rest between after) : Builds c r (.seq p q) read rest before after := by
  rw [← List.append_nil read]
  exact seq hp hq

theorem call {phrase : Phrase} (h : Builds c r (grammar phrase) read rest before after) :
    Builds c r (.call phrase) read rest before after := by
  intro s hahead hbuilt
  obtain ⟨u, hu, hrest⟩ := h s hahead hbuilt
  exact ⟨u, .call hu, hrest⟩

/-- A node around what was read, of which there is something. -/
theorem node {rule : Rule} {first last : Nat} (h : Builds c r p read rest [] after)
    (hfirst : read.head?.map Token.index = some first)
    (hlast : read.getLast?.map Token.index = some last) (hle : first ≤ last) :
    Builds c r (.node rule p) read rest before
      (before ++ [.node rule first (some last) after]) := by
  intro s hahead hbuilt
  obtain ⟨u, hu, huahead, hubuilt, hureports, hulast⟩ := h (s.enter c rule) hahead rfl
  have hcurrent : (s.current c).index = first := by
    obtain ⟨t, ht, rfl⟩ := Option.map_eq_some_iff.1 hfirst
    rw [State.current, hahead, Context.peek, ← List.head?_eq_getElem?, List.head?_append, ht]
    rfl
  refine ⟨_, .node hu, huahead, ?_, hureports, hulast⟩
  rw [hlast] at hulast
  simp [State.leave, Builder.leave, Tree.closed, hcurrent, hulast, hubuilt, hbuilt, hle]

/-- A node that is the only part. -/
theorem nodeOnly {rule : Rule} {first last : Nat} (h : Builds c r p read rest [] after)
    (hfirst : read.head?.map Token.index = some first)
    (hlast : read.getLast?.map Token.index = some last) (hle : first ≤ last) :
    Builds c r (.node rule p) read rest [] [.node rule first (some last) after] :=
  h.node hfirst hlast hle

/-- A node around the part that was built last and what is read after it. -/
theorem wrap {rule : Rule} {part : Tree} {last : Nat}
    (h : Builds c r p read rest [part] after)
    (hlast : read.getLast?.map Token.index = some last) (hle : part.first ≤ last) :
    Builds c r (.wrap rule p) read rest (before ++ [part])
      (before ++ [.node rule part.first (some last) after]) := by
  intro s hahead hbuilt
  have henter : (s.enterAround c rule).built = [part] := by
    simp [State.enterAround, Builder.enterAround, hbuilt]
  obtain ⟨u, hu, huahead, hubuilt, hureports, hulast⟩ := h (s.enterAround c rule) hahead henter
  refine ⟨_, .wrap hu, huahead, ?_, hureports, hulast⟩
  rw [hlast] at hulast
  simp [State.leaveAround, Builder.leaveAround, Tree.closed, Tree.firstAround, hulast, hubuilt,
    hbuilt, hle]

section Tests

variable (hc : c.ending.isEof = true) (ht : t.halts = true)

include hc ht

theorem condTrue (heval : ∀ e, (t.eval c (read ++ rest) e).1 = true)
    (h : Builds c r p read rest before after) :
    Builds c r (.cond t p q) read rest before after := by
  intro s hahead hbuilt
  obtain ⟨u, hu, hrest⟩ :=
    h { s with expected := (t.eval c s.ahead s.expected).2 } hahead hbuilt
  refine ⟨u, .condTrue ((t.answers_iff hc _ _ _ ht).2 ?_) hu, hrest⟩
  rw [← heval s.expected, ← hahead]

theorem condFalse (heval : ∀ e, (t.eval c (read ++ rest) e).1 = false)
    (h : Builds c r q read rest before after) :
    Builds c r (.cond t p q) read rest before after := by
  intro s hahead hbuilt
  obtain ⟨u, hu, hrest⟩ :=
    h { s with expected := (t.eval c s.ahead s.expected).2 } hahead hbuilt
  refine ⟨u, .condFalse ((t.answers_iff hc _ _ _ ht).2 ?_) hu, hrest⟩
  rw [← heval s.expected, ← hahead]

theorem loopStop (heval : ∀ e, (t.eval c rest e).1 = false) :
    Builds c r (.loop t p) [] rest before before := by
  intro s hahead hbuilt
  refine ⟨{ s with expected := (t.eval c s.ahead s.expected).2 },
    .loopStop ((t.answers_iff hc _ _ _ ht).2 ?_), hahead, hbuilt, rfl, rfl⟩
  rw [← heval s.expected, ← List.nil_append rest, ← hahead]

theorem loopNext (heval : ∀ e, (t.eval c (read ++ (more ++ rest)) e).1 = true)
    (hround : Builds c r p read (more ++ rest) before between)
    (hmore : Builds c r (.loop t p) more rest between after) :
    Builds c r (.loop t p) (read ++ more) rest before after := by
  intro s hahead hbuilt
  rw [List.append_assoc] at hahead
  obtain ⟨u, hu, huahead, hubuilt, hureports, hulast⟩ :=
    hround { s with expected := (t.eval c s.ahead s.expected).2 } hahead hbuilt
  obtain ⟨v, hv, hvahead, hvbuilt, hvreports, hvlast⟩ := hmore u huahead hubuilt
  refine ⟨v, .loopNext ((t.answers_iff hc _ _ _ ht).2 ?_) hu hv, hvahead, hvbuilt,
    hvreports.trans hureports, ?_⟩
  · rw [← heval s.expected, ← hahead]
  · rw [hvlast, hulast, List.getLast?_append, Option.map_or, Option.or_assoc]

end Tests

/-- The alternative that looks decide for. -/
theorem settle (hc : c.ending.isEof = true) (hp : p.halts = true)
    (h : Builds c r (p.settle c (read ++ rest) .call) read rest before after) :
    Builds c r p read rest before after := by
  fun_induction Program.settle c (read ++ rest) Program.call p with
  | case1 l p q hl ih =>
      rw [Program.halts, Bool.and_eq_true, Bool.and_eq_true] at hp
      exact condTrue hc hp.1.1 (fun _ => hl) (ih hp.1.2 h)
  | case2 l p q hl ih =>
      rw [Program.halts, Bool.and_eq_true, Bool.and_eq_true] at hp
      exact condFalse hc hp.1.1 (fun _ => Bool.eq_false_iff.2 hl) (ih hp.2 h)
  | case3 phrase => exact h
  | case4 p => exact h

/-- The first alternative, one for each level, whose operators contain the next token. -/
theorem choose (hc : c.ending.isEof = true) {levels : List Level} {level : Level}
    {program : Level → Fragment}
    (hlevel : levels.find? (·.operators.contains (c.kindAt (read ++ rest) 0)) = some level)
    (h : Builds c r (program level) read rest before after) :
    Builds c r
      (Program.choose (levels.map fun level => (.among 0 level.operators, program level)) q)
      read rest before after := by
  induction levels with
  | nil => cases hlevel
  | cons l levels ih =>
      rw [List.find?_cons] at hlevel
      split at hlevel
      case h_1 hl =>
        cases hlevel
        exact condTrue hc rfl (fun _ => hl) h
      case h_2 hl => exact condFalse hc rfl (fun _ => hl) (ih hlevel)

end Builds

/-! ### Levels and ranks -/

/-- The levels hold the operators of the ranks from `base` up to, but excluding, `top`,
with powers that grow with the rank. -/
structure Ladder (levels : List Level) (base top : Nat) : Prop where
  sound : ∀ level ∈ levels, ∀ kind ∈ level.operators, ∃ m, kind.rank? = some m ∧
    base ≤ m ∧ m < top ∧ level.rule = operatorRule m ∧
      level.left = 2 * (m - base) + 1 ∧ level.right = 2 * (m - base) + 2
  complete : ∀ kind m, kind.rank? = some m → base ≤ m → m < top →
    ∃ level ∈ levels, kind ∈ level.operators

theorem logicalLevels_ladder : Ladder logicalLevels 0 logicalRanks where
  sound := by simp [logicalLevels, TokenKind.rank?, operatorRule, logicalRanks]
  complete kind m h _ hm := by
    unfold TokenKind.rank? at h
    split at h <;> cases h <;> simp_all [logicalLevels, logicalRanks]

theorem bitLevels_ladder : Ladder bitLevels logicalRanks allRanks where
  sound := by simp [bitLevels, TokenKind.rank?, operatorRule, logicalRanks, allRanks]
  complete kind m h hm _ := by
    unfold TokenKind.rank? at h
    split at h <;> cases h <;> simp_all [bitLevels, logicalRanks]

namespace Ladder

variable {levels : List Level} {base top power m : Nat} {kind : TokenKind}

/-- The operators that bind at least as tight as a power. -/
theorem contains_iff (h : Ladder levels base top) :
    (operatorsFrom levels power).contains kind = true ↔
      ∃ m, kind.rank? = some m ∧ base ≤ m ∧ m < top ∧ power ≤ 2 * (m - base) + 1 := by
  simp only [operatorsFrom, List.contains_iff_mem, List.mem_flatMap, List.mem_filter,
    decide_eq_true_eq]
  constructor
  · rintro ⟨level, ⟨hlevel, hpower⟩, hkind⟩
    obtain ⟨m, hm, hbase, htop, -, hleft, -⟩ := h.sound level hlevel kind hkind
    exact ⟨m, hm, hbase, htop, hleft ▸ hpower⟩
  · rintro ⟨m, hm, hbase, htop, hpower⟩
    obtain ⟨level, hlevel, hkind⟩ := h.complete kind m hm hbase htop
    obtain ⟨k, hk, -, -, -, hleft, -⟩ := h.sound level hlevel kind hkind
    cases hm.symm.trans hk
    exact ⟨level, ⟨hlevel, hleft ▸ hpower⟩, hkind⟩

/-- The level of an operator. -/
theorem exists_find? (h : Ladder levels base top) (hm : kind.rank? = some m) (hbase : base ≤ m)
    (htop : m < top) : ∃ level, levels.find? (·.operators.contains kind) = some level ∧
      level.rule = operatorRule m ∧ level.right = 2 * (m - base) + 2 := by
  obtain ⟨found, hfound, hmem⟩ := h.complete kind m hm hbase htop
  have hsome : (levels.find? (·.operators.contains kind)).isSome = true := by
    rw [List.find?_isSome]
    exact ⟨found, hfound, List.contains_iff_mem.2 hmem⟩
  obtain ⟨level, hlevel⟩ := Option.isSome_iff_exists.1 hsome
  have hkind := List.find?_some hlevel
  obtain ⟨k, hk, -, -, hrule, -, hright⟩ := h.sound level (List.mem_of_find?_eq_some hlevel) kind
    (List.contains_iff_mem.1 hkind)
  cases hm.symm.trans hk
  exact ⟨level, hlevel, hrule, hright⟩

end Ladder

/-! ### Reading by levels -/

/-- The next token ends the input or is an operator of a rank below `n`. -/
def Stops (n : Nat) (ahead : List Token) : Prop :=
  ∃ u us, ahead = u :: us ∧ (u.kind = .eof ∨ ∃ k < n, u.kind.rank? = some k)

/-- How the operators of a ladder are read: `body` reads what `atom` reads and then the
operators above a power, each with an operand. A formula without operators of the ladder is
read by `atom`, and `tree` gives the trees that are built. -/
structure Climber (c : Context) (r : Reaction) (levels : List Level) (base top : Nat) where
  ladder : Ladder levels base top
  atom : Fragment
  operand : Level → Fragment
  tree : Formula → Tree
  first_tree : ∀ f, (tree f).first = f.first
  tree_binary : ∀ {f g : Formula} {op : Token} {m : Nat}, op.kind.rank? = some m → base ≤ m →
    m < top → tree (.binary f op g) =
      .node (operatorRule m) f.first (some g.last) [tree f, .token op.index, tree g]
  builds_atom : ∀ {f : Formula} {n : Nat} {rest : List Token} (before : List Tree),
    f.Graded top → f.Ordered → Stops n rest → n ≤ top →
      Builds c r atom f.tokens rest before (before ++ [tree f])
  builds_operand : ∀ {f : Formula} {rest : List Token} {before after : List Tree} (level : Level),
    f.Graded base →
      Builds c r (.seq atom (operations levels level.right operand)) f.tokens rest before after →
        Builds c r (operand level) f.tokens rest before after

namespace Climber

variable {c : Context} {r : Reaction} {levels : List Level} {base top : Nat}

/-- An operand and the operators after it that bind at least as tight as a power. -/
def body (k : Climber c r levels base top) (power : Nat) : Fragment :=
  .seq k.atom (operations levels power k.operand)

variable (k : Climber c r levels base top)

/-- An operator and the formula on its right are put around the formula on its left. -/
theorem builds_round {f g : Formula} {op : Token} {m : Nat} {level : Level} {rest : List Token}
    {before : List Tree} (hop : op.kind.rank? = some m) (hbase : base ≤ m) (htop : m < top)
    (hordered : (Formula.binary f op g).Ordered) (hrule : level.rule = operatorRule m)
    (h : Builds c r (k.operand level) g.tokens rest [k.tree f, .token op.index]
      [k.tree f, .token op.index, k.tree g]) :
    Builds c r (.wrap level.rule (.seq .advance (k.operand level))) (op :: g.tokens) rest
      (before ++ [k.tree f]) (before ++ [k.tree (.binary f op g)]) := by
  have hread : Builds c r (.seq .advance (k.operand level)) ([op] ++ g.tokens) rest [k.tree f]
      [k.tree f, .token op.index, k.tree g] :=
    .seq (.advance (Token.isEof_of_rank? hop)) h
  rw [k.tree_binary hop hbase htop, hrule, ← k.first_tree]
  refine hread.wrap ?_ ?_
  · rw [List.getLast?_append_of_ne_nil _ g.tokens_ne_nil]
    exact g.getLast?_tokens
  · rw [k.first_tree]
    exact hordered.first_le_last

variable (hc : c.ending.isEof = true)

include hc

/-- The loop over the operators ends at one that binds looser. -/
theorem builds_stop {j power : Nat} {rest : List Token} {before : List Tree}
    (hstops : Stops j rest) (hj : 2 * (j - base) ≤ power) :
    Builds c r (operations levels power k.operand) [] rest before before := by
  obtain ⟨u, us, rfl, hu⟩ := hstops
  refine .loopStop hc rfl fun _ => Bool.eq_false_iff.2 fun hmem => ?_
  obtain ⟨i, hi, hbase, -, hpower⟩ := k.ladder.contains_iff.1 hmem
  have hi' : u.kind.rank? = some i := hi
  rcases hu with heof | ⟨i', hij, hrank⟩
  · rw [heof] at hi'
    cases hi'
  · cases hi'.symm.trans hrank
    omega

/-- A formula is read as far as its operators bind tighter than the one that follows it;
then the loop over the operators goes on. -/
theorem builds {f : Formula} {n j power : Nat} {more rest : List Token}
    {before after : List Tree} (hf : f.Graded n) (hordered : f.Ordered) (hbase : base ≤ n)
    (htop : n ≤ top) (hpower : power ≤ 2 * (n - base) + 1) (hstops : Stops j (more ++ rest))
    (hjn : j ≤ n + 1) (hjtop : j ≤ top)
    (hmore : Builds c r (operations levels power k.operand) more rest (before ++ [k.tree f])
      after) :
    Builds c r (k.body power) (f.tokens ++ more) rest before after := by
  -- the left operand is read by the body itself, so that the loop which goes on behind it
  -- starts with the operator: `more` grows along the left spine of the formula
  induction f generalizing n j power more rest before after with
  | operand t =>
      have hatom : Formula.Graded top (.operand t) := by
        cases hf with
        | operand ht => exact .operand ht
      exact .seq (k.builds_atom before hatom hordered hstops hjtop) hmore
  | binary f op g ihf ihg =>
      cases hf with
      | @binary _ m _ _ _ hop hnm hleft hright =>
      by_cases hm : m < top
      case neg =>
        have hatom : Formula.Graded top (.binary f op g) :=
          .binary hop (Nat.le_of_not_lt hm) hleft hright
        exact .seq (k.builds_atom before hatom hordered hstops hjtop) hmore
      case pos =>
        have hbasem : base ≤ m := hbase.trans hnm
        obtain ⟨level, hlevel, hrule, hpowers⟩ := k.ladder.exists_find? hop hbasem hm
        -- the operand on the right ends before the token that follows the formula
        have hoperand : Builds c r (k.operand level) g.tokens (more ++ rest)
            [k.tree f, .token op.index] [k.tree f, .token op.index, k.tree g] := by
          refine k.builds_operand level (hright.mono (by omega)) ?_
          rw [← List.append_nil g.tokens]
          exact ihg hright hordered.right (by omega) hm (by omega) hstops (by omega) hjtop
            (k.builds_stop hc hstops (by omega))
        have hround : Builds c r (.wrap level.rule (.seq .advance (k.operand level)))
            (op :: g.tokens) (more ++ rest) (before ++ [k.tree f])
            (before ++ [k.tree (.binary f op g)]) :=
          k.builds_round hop hbasem hm hordered hrule hoperand
        -- the operator itself is where the operand on the left ends
        rw [Formula.tokens, List.append_assoc]
        refine ihf hleft hordered.left hbasem hm.le (by omega)
          ⟨op, _, rfl, .inr ⟨m, Nat.lt_succ_self m, hop⟩⟩ le_rfl hm ?_
        refine .loopNext hc rfl (fun _ => ?_) (.choose hc hlevel hround) hmore
        exact k.ladder.contains_iff.2 ⟨m, hop, hbasem, hm, by omega⟩

/-- A formula is read as a whole when what follows it binds looser than the power. -/
theorem builds_whole {f : Formula} {n j power : Nat} {rest : List Token} (before : List Tree)
    (hf : f.Graded n) (hordered : f.Ordered) (hbase : base ≤ n) (htop : n ≤ top)
    (hpower : power ≤ 2 * (n - base) + 1) (hstops : Stops j rest) (hjn : j ≤ n + 1)
    (hjtop : j ≤ top) (hj : 2 * (j - base) ≤ power) :
    Builds c r (k.body power) f.tokens rest before (before ++ [k.tree f]) := by
  rw [← List.append_nil f.tokens]
  exact k.builds hc hf hordered hbase htop hpower hstops hjn hjtop (k.builds_stop hc hstops hj)

end Climber

end MySqlAnalysis.Grammar
