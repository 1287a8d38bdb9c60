import MySqlAnalysis.Proofs.Grammar.Leaves
import MySqlAnalysis.Proofs.Grammar.Rounds
import MySqlAnalysis.Proofs.Grammar.Sparing
import MySqlAnalysis.Proofs.Tree.Lineage

/-!
# The spans of nodes

A node names its first and its last token. Both are told by the leaves below it:
the first one is the first leaf or, for a node that read nothing, the token that
comes next, and the last one is the last leaf, if there is any (`Tree.Spans`). This
holds of all nodes below the root of a script and of all nodes of any other parse
tree, and the leaves below such a node do not end the input (`parse_rests`).
-/

set_option autoImplicit false

namespace MySqlAnalysis

/-! ### Spans -/

namespace Tree

mutual

/-- Every node of a tree starts at its first leaf or else at `next`, the token that
follows, and ends at its last leaf. -/
def Spans (next : Nat) : Tree → Prop
  | token _ => True
  | skipped _ => True
  | node _ first last parts =>
    first = (leavesAll parts).headD next ∧ last = (leavesAll parts).getLast? ∧ SpansAll next parts

/-- The same for trees that follow each other. -/
def SpansAll (next : Nat) : List Tree → Prop
  | [] => True
  | t :: ts => Spans ((leavesAll ts).headD next) t ∧ SpansAll next ts

end

theorem headD_append (xs ys : List Nat) (d : Nat) :
    (xs ++ ys).headD d = xs.headD (ys.headD d) := by
  cases xs <;> rfl

theorem spansAll_append (next : Nat) (xs ys : List Tree) :
    SpansAll next (xs ++ ys) ↔
      SpansAll ((leavesAll ys).headD next) xs ∧ SpansAll next ys := by
  induction xs with
  | nil => simp [SpansAll]
  | cons t ts ih =>
      rw [List.cons_append, SpansAll, SpansAll, ih, leavesAll_append, headD_append, and_assoc]

theorem spansAll_singleton (next : Nat) (t : Tree) : SpansAll next [t] ↔ t.Spans next := by
  simp [SpansAll, leavesAll]

/-- A tree starts at its first leaf or else at the token that follows. -/
theorem Spans.first_eq {next : Nat} {t : Tree} (h : t.Spans next) :
    t.first = t.leaves.headD next := by
  cases t with
  | token index => rfl
  | skipped index => rfl
  | node rule first last parts => exact h.1

/-- A tree ends at its last leaf. -/
theorem Spans.last?_eq {next : Nat} {t : Tree} (h : t.Spans next) :
    t.last? = t.leaves.getLast? := by
  cases t with
  | token index => rfl
  | skipped index => rfl
  | node rule first last parts => exact h.2.1

theorem SpansAll.exists_spans {next : Nat} {ts : List Tree} (h : SpansAll next ts) :
    ∀ t ∈ ts, ∃ next', t.Spans next' := by
  induction ts with
  | nil => exact fun t ht => absurd ht List.not_mem_nil
  | cons u us ih =>
      rw [SpansAll] at h
      intro t ht
      rcases List.mem_cons.1 ht with rfl | ht
      · exact ⟨_, h.1⟩
      · exact ih h.2 t ht

theorem sublist_leavesAll {ts : List Tree} {t : Tree} (ht : t ∈ ts) :
    t.leaves.Sublist (leavesAll ts) := by
  obtain ⟨before, after, rfl⟩ := List.append_of_mem ht
  rw [leavesAll_append, leavesAll]
  exact (List.sublist_append_left _ _).trans (List.sublist_append_right _ _)

/-- A tree whose nodes have the spans of their leaves, which are tokens in order,
none of which ends the input. -/
structure Rests (tokens : List Token) (t : Tree) : Prop where
  spans : ∃ next, t.Spans next
  sorted : t.leaves.Pairwise (· < ·)
  real : ∀ i ∈ t.leaves, ∃ u ∈ tokens, u.index = i ∧ u.isEof = false

theorem Rests.of_mem {tokens : List Token} {t part : Tree} (h : t.Rests tokens)
    (hpart : part ∈ t.children) : part.Rests tokens := by
  cases t with
  | token index => cases hpart
  | skipped index => cases hpart
  | node rule first last parts =>
      obtain ⟨next, -, -, hspans⟩ := h.spans
      have hsub : part.leaves.Sublist (leavesAll parts) := sublist_leavesAll hpart
      exact ⟨hspans.exists_spans part hpart, h.sorted.sublist hsub,
        fun i hi => h.real i (hsub.subset hi)⟩

end Tree

namespace Grammar

/-! ### States -/

/-- The tokens are numbered in increasing order, and the end of the input comes
after those before it. -/
structure Context.Sorts (c : Context) (all : List Token) : Prop where
  sorted : (all.map Token.index).Pairwise (· < ·)
  next : ∀ behind ahead, all = behind ++ ahead → (∀ t ∈ behind, t.isEof = false) →
    ∀ t ∈ behind, t.index < (c.peek ahead 0).index

/-- The tokens that are no longer ahead were read last, some of them into the
leaves of the trees, and the trees have the spans of their leaves. -/
def State.Laid (c : Context) (all : List Token) (s : State (List Tree)) : Prop :=
  ∃ behind, all = behind ++ s.ahead ∧ (∀ t ∈ behind, t.isEof = false) ∧
    s.last = (behind.map Token.index).getLast? ∧
    Tree.leavesAll s.built <:+ behind.map Token.index ∧
    Tree.SpansAll (s.current c).index s.built

namespace State.Laid

variable {c : Context} {all : List Token} {s s' : State (List Tree)}

theorem of_eq (h : s.Laid c all) (hahead : s'.ahead = s.ahead) (hlast : s'.last = s.last)
    (hbuilt : s'.built = s.built) : s'.Laid c all := by
  obtain ⟨behind, hall, hinner, hlast', hleaves, hspans⟩ := h
  refine ⟨behind, hahead ▸ hall, hinner, hlast.trans hlast', hbuilt ▸ hleaves, ?_⟩
  rw [hbuilt, State.current, hahead]
  exact hspans

/-- A new node is opened. -/
theorem enter (h : s.Laid c all) (rule : Rule) : (s.enter c rule).Laid c all := by
  obtain ⟨behind, hall, hinner, hlast, -, -⟩ := h
  exact ⟨behind, hall, hinner, hlast, List.nil_suffix, trivial⟩

/-- A node is opened around the part that was built last. -/
theorem enterAround (h : s.Laid c all) (rule : Rule) : (s.enterAround c rule).Laid c all := by
  obtain ⟨behind, hall, hinner, hlast, hleaves, hspans⟩ := h
  refine ⟨behind, hall, hinner, hlast, ?_, ?_⟩
  · rw [← Tree.leavesAll_dropLast_append s.built] at hleaves
    exact (List.suffix_append _ _).trans hleaves
  · rcases List.eq_nil_or_concat s.built with hnil | ⟨before, t, hconcat⟩
    · simp [State.enterAround, Builder.enterAround, hnil, Tree.SpansAll]
    · rw [hconcat, List.concat_eq_append, Tree.spansAll_append] at hspans
      show Tree.SpansAll (s.current c).index s.built.getLast?.toList
      simpa [hconcat] using hspans.2

/-- The next token, which does not end the input, becomes a leaf. -/
theorem shift (h : s.Laid c all) {leaf : Nat → List Tree → List Tree} {t : Token}
    {ts : List Token} (hahead : s.ahead = t :: ts) (ht : t.isEof = false)
    (tree : Nat → Tree) (hleaf : ∀ i b, leaf i b = b ++ [tree i])
    (htree : ∀ i next, (tree i).leaves = [i] ∧ (tree i).Spans next) :
    (s.shift c leaf).Laid c all := by
  obtain ⟨behind, hall, hinner, hlast, hleaves, hspans⟩ := h
  have hcurrent : s.current c = t := by
    rw [State.current, hahead]
    rfl
  have hts : (s.shift c leaf).ahead = ts := by
    rw [State.shift]
    dsimp only
    rw [hcurrent, ht, hahead]
    rfl
  refine ⟨behind ++ [t], ?_, ?_, ?_, ?_, ?_⟩
  · rw [hts, hall, hahead, List.append_assoc, List.singleton_append]
  · intro u hu
    rcases List.mem_append.1 hu with hu | hu
    · exact hinner u hu
    · rw [List.mem_singleton.1 hu]
      exact ht
  · simp [State.shift, hcurrent]
  · rw [State.shift]
    dsimp only
    rw [hleaf, Tree.leavesAll_append, Tree.leavesAll_singleton, (htree _ 0).1, hcurrent,
      List.map_append]
    obtain ⟨before, hbefore⟩ := hleaves
    exact ⟨before, by rw [← List.append_assoc, hbefore]; rfl⟩
  · rw [State.shift]
    dsimp only
    rw [hleaf, Tree.spansAll_append, Tree.spansAll_singleton, Tree.leavesAll_singleton,
      (htree _ 0).1, hcurrent]
    rw [hcurrent] at hspans
    exact ⟨hspans, (htree _ _).2⟩

theorem consume (h : s.Laid c all) (he : c.Ended s.ahead) (hk : c.kindAt s.ahead 0 ≠ .eof) :
    (s.consume c).Laid c all := by
  obtain ⟨t, ts, hahead, ht⟩ := he.cons_of_kindAt_ne hk
  have hshift : (s.shift c Builder.token).Laid c all :=
    h.shift hahead ht .token (fun i b => rfl) fun i next => ⟨rfl, trivial⟩
  exact hshift.of_eq rfl rfl rfl

theorem skip (h : s.Laid c all) (he : c.Ended s.ahead) (hk : c.kindAt s.ahead 0 ≠ .eof) :
    (s.skip c).Laid c all := by
  obtain ⟨t, ts, hahead, ht⟩ := he.cons_of_kindAt_ne hk
  exact h.shift hahead ht .skipped (fun i b => rfl) fun i next => ⟨rfl, trivial⟩

theorem skipUpTo (n : Nat) :
    ∀ s : State (List Tree), s.Laid c all → c.Ended s.ahead →
      (State.skipUpTo c n s).Laid c all := by
  induction n with
  | zero => exact fun s h he => h
  | succ n ih =>
      intro s h he
      rw [State.skipUpTo]
      split
      case isTrue => exact h
      case isFalse hend =>
        have hk := State.kindAt_ne_eof_of_not_atStatementEnd hend
        obtain ⟨t, ts, hahead, ht⟩ := he.cons_of_kindAt_ne hk
        exact ih (s.skip c) (h.skip he hk) ((State.skip_reads hahead ht).2.ended he)

theorem refuse (h : s.Laid c all) (r : Reaction) (why : Refusal) :
    (s.refuse c r why).state.Laid c all := by
  cases why <;> cases r <;> exact h.of_eq rfl rfl rfl

theorem expect (h : s.Laid c all) (he : c.Ended s.ahead) (r : Reaction) {kind : TokenKind}
    (hkind : kind ≠ .eof) : (s.expect c r kind).state.Laid c all := by
  have hnote : State.Laid c all { s with expected := noteKind s.expected kind } :=
    h.of_eq rfl rfl rfl
  unfold State.expect
  dsimp only
  split_ifs with hfound hdelete hinsert
  · rw [beq_iff_eq] at hfound
    exact hnote.consume he (by rw [hfound]; exact hkind)
  · -- the token in front of the required one is deleted
    have hnext := beq_iff_eq.1 (Bool.and_eq_true_iff.1 hdelete).2
    obtain ⟨t, u, ts, hahead, ht, hu⟩ := he.cons_cons_of_kindAt_ne (by rw [hnext]; exact hkind)
    have hreport : State.Laid c all
        (State.report { s with expected := noteKind s.expected kind } c .extraneous) :=
      hnote.of_eq rfl rfl rfl
    obtain ⟨hskip, hreads⟩ := State.skip_reads (c := c)
      (s := State.report { s with expected := noteKind s.expected kind } c .extraneous) hahead ht
    have hk : c.kindAt s.ahead 0 ≠ .eof := by
      rw [hahead]
      exact beq_eq_false_iff_ne.1 ht
    refine (hreport.skip he hk).consume (hreads.ended he) ?_
    rw [hskip]
    exact beq_eq_false_iff_ne.1 hu
  · exact h.of_eq rfl rfl rfl
  · cases r <;> exact h.of_eq rfl rfl rfl

/-- The last token that was read, unless it comes before the first one of the leaves. -/
theorem filter_getLast? {before leaves : List Nat} {next : Nat} (hsuffix : leaves <:+ before)
    (hsorted : before.Pairwise (· < ·)) (hnext : ∀ i ∈ before, i < next) :
    before.getLast?.filter (leaves.headD next ≤ ·) = leaves.getLast? := by
  obtain ⟨others, rfl⟩ := hsuffix
  cases leaves with
  | nil =>
      rw [List.append_nil] at hnext ⊢
      cases hlast : others.getLast? with
      | none => rfl
      | some i =>
          have hlt := hnext i (List.mem_of_getLast? hlast)
          simpa using hlt
  | cons i leaves =>
      have hle : ∀ j ∈ (i :: leaves).getLast?, i ≤ j := by
        intro j hj
        rcases List.mem_cons.1 (List.mem_of_getLast? hj) with rfl | hmem
        · exact Nat.le_refl j
        · exact Nat.le_of_lt (List.rel_of_pairwise_cons (List.pairwise_append.1 hsorted).2.1 hmem)
      rw [List.getLast?_append_of_ne_nil _ (List.cons_ne_nil i leaves)]
      cases hlast : (i :: leaves).getLast? with
      | none => rfl
      | some j => simp [hle j hlast]

/-- What a state reads leaves its first token where it is. -/
theorem headD_of_reads (hreads : s.Reads s') :
    (Tree.leavesAll s.built).headD (s.current c).index =
      (Tree.leavesAll s'.built).headD (s'.current c).index := by
  obtain ⟨read, hahead, -, hleaves⟩ := hreads
  rw [hleaves, Tree.headD_append]
  congr 1
  rw [State.current, State.current, hahead]
  cases read <;> rfl

/-- A node is closed over the parts that were read since it was opened. -/
theorem close (hc : c.Sorts all) (rule : Rule) {outer : List Tree} {first : Nat}
    (h : s.Laid c all) (h' : s'.Laid c all) {opened : State (List Tree)}
    (hreads : opened.Reads s') (hahead : opened.ahead = s.ahead)
    (hopened : Tree.leavesAll outer ++ Tree.leavesAll opened.built = Tree.leavesAll s.built)
    (hfirst : first = (Tree.leavesAll opened.built).headD (s.current c).index)
    (houter : Tree.SpansAll first outer) :
    State.Laid c all { s' with built := outer ++ [.closed rule first s'.last s'.built] } := by
  obtain ⟨behind, hall, hinner, hlast, hleaves, hspans⟩ := h
  obtain ⟨behind', hall', hinner', hlast', hleaves', hspans'⟩ := h'
  have hstart : first = (Tree.leavesAll s'.built).headD (s'.current c).index := by
    rw [hfirst, ← headD_of_reads hreads, State.current, State.current, hahead]
  have hend : s'.last.filter (first ≤ ·) = (Tree.leavesAll s'.built).getLast? := by
    rw [hstart, hlast']
    refine filter_getLast? hleaves' ?_ ?_
    · have hsorted := hc.sorted
      rw [hall', List.map_append] at hsorted
      exact (List.pairwise_append.1 hsorted).1
    · intro i hi
      obtain ⟨t, ht, rfl⟩ := List.mem_map.1 hi
      exact hc.next behind' s'.ahead hall' hinner' t ht
  refine ⟨behind', hall', hinner', hlast', ?_, ?_⟩
  · -- the leaves around the node and those in it were read one after the other
    obtain ⟨read, hread, -, hnew⟩ := hreads
    have hbehind : behind' = behind ++ read := by
      rw [hall', ← hahead, hread, ← List.append_assoc] at hall
      exact List.append_cancel_right hall
    rw [Tree.leavesAll_append, Tree.leavesAll_singleton, Tree.leaves_closed, hnew,
      ← List.append_assoc, hopened, hbehind, List.map_append]
    obtain ⟨before, hbefore⟩ := hleaves
    exact ⟨before, by rw [← List.append_assoc, hbefore]⟩
  · show Tree.SpansAll (s'.current c).index _
    rw [Tree.spansAll_append, Tree.spansAll_singleton, Tree.leavesAll_singleton,
      Tree.leaves_closed, ← hstart]
    exact ⟨houter, hstart, hend, hspans'⟩

/-- Closing a node that was opened at the next token. -/
theorem leave (hc : c.Sorts all) (rule : Rule) (h : s.Laid c all) (h' : s'.Laid c all)
    (hreads : (s.enter c rule).Reads s') : (State.leave c rule s s').Laid c all := by
  obtain ⟨-, -, -, -, -, hspans⟩ := id h
  exact h.close hc rule h' hreads rfl (List.append_nil _) rfl hspans

/-- Closing a node that was opened around the last part. -/
theorem leaveAround (hc : c.Sorts all) (rule : Rule) (h : s.Laid c all) (h' : s'.Laid c all)
    (hreads : (s.enterAround c rule).Reads s') : (State.leaveAround c rule s s').Laid c all := by
  obtain ⟨-, -, -, -, -, hspans⟩ := id h
  have hopened : Tree.leavesAll s.built.dropLast ++
      Tree.leavesAll (s.enterAround c rule).built = Tree.leavesAll s.built :=
    Tree.leavesAll_dropLast_append s.built
  rcases List.eq_nil_or_concat s.built with hnil | ⟨before, t, hconcat⟩
  · refine h.close hc rule h' hreads rfl hopened ?_ ?_
    · simp [Tree.firstAround, State.enterAround, Builder.enterAround, hnil, Tree.leavesAll]
    · simp [hnil, Tree.SpansAll]
  · rw [hconcat, List.concat_eq_append, Tree.spansAll_append, Tree.spansAll_singleton,
      Tree.leavesAll_singleton] at hspans
    have hfirst : Tree.firstAround (s.current c).index s.built =
        t.leaves.headD (s.current c).index := by
      rw [← hspans.2.first_eq]
      simp [Tree.firstAround, hconcat]
    refine h.close hc rule h' hreads rfl hopened ?_ ?_
    · rw [hfirst]
      simp [State.enterAround, Builder.enterAround, hconcat]
    · rw [hfirst]
      simpa [hconcat] using hspans.1

/-- The trees that were built. -/
theorem rests (hc : c.Sorts all) (h : s.Laid c all) : ∀ t ∈ s.built, t.Rests all := by
  obtain ⟨behind, hall, hinner, -, hleaves, hspans⟩ := h
  intro t ht
  have hsub := (Tree.sublist_leavesAll ht).trans hleaves.sublist
  refine ⟨hspans.exists_spans t ht, ?_, fun i hi => ?_⟩
  · have hsorted := hc.sorted
    rw [hall, List.map_append] at hsorted
    exact (List.pairwise_append.1 hsorted).1.sublist hsub
  · obtain ⟨u, hu, rfl⟩ := List.mem_map.1 (hsub.subset hi)
    exact ⟨u, hall ▸ List.mem_append_left _ hu, rfl, hinner u hu⟩

end State.Laid

/-! ### Programs -/

section Programs

variable {φ : Type} {c : Context} {rules : φ → Program φ} {contracts : φ → Option Contract}
  {fuel : Nat} {all : List Token}

/-- A program that is checked keeps the spans wherever it is ready. -/
def Lays (c : Context) (contracts : φ → Option Contract) (all : List Token) (room : Nat)
    (go : Reaction → Program φ → State (List Tree) → Outcome (List Tree)) (p : Program φ) : Prop :=
  ∀ (r : Reaction) (k : Facts) (s : State (List Tree)), Ready c contracts room p k s →
    s.Laid c all → (go r p s).state.Laid c all

/-- A checked program keeps the spans when everything that it calls does. -/
theorem exec_lays (hc : c.Sorts all)
    (hdepth : ∀ phrase k, contracts phrase = some k → k.depth < callDepth)
    (hrules : ∀ phrase k, contracts phrase = some k →
      k.allows ((rules phrase).flow contracts k.facts) = true)
    (hrecur : ∀ p, ∀ room < fuel, Lays c contracts all room (run c rules fuel) p)
    (p : Program φ) : Lays c contracts all fuel (exec c rules (run c rules fuel)) p := by
  induction p with
  | done => exact fun r k s h hs => hs
  | advance =>
      exact fun r k s h hs => hs.consume h.ended (Facts.kindAt_ne_of_rulesOut h.holds h.ok)
  | expect kind => exact fun r k s h hs => hs.expect h.ended r (bne_iff_ne.1 h.ok)
  | refuse why => exact fun r k s h hs => hs.refuse r why
  | seq p q ihp ihq =>
      intro r k s h hs
      have hp := ihp r k s h.seq_left hs
      have hflow := h.seq_left.flows hdepth hrules r
      rw [exec]
      cases ho : exec c rules (run c rules fuel) r p s with
      | aborted why s' =>
          rw [ho] at hp
          exact hp
      | finished s' =>
          rw [ho] at hp hflow
          obtain ⟨e, -, hready⟩ := h.seq_right hdepth hflow
          exact ihq r e.facts s' hready hp
  | cond t p q ihp ihq =>
      intro r k s h hs
      rw [exec]
      split
      case h_1 expected heval =>
        exact ihp r _ _ ((h.cond_true (by rw [heval])).of_ahead_eq rfl) (hs.of_eq rfl rfl rfl)
      case h_2 expected heval =>
        exact ihq r _ _ ((h.cond_false (by rw [heval])).of_ahead_eq rfl) (hs.of_eq rfl rfl rfl)
  | loop t p ih =>
      intro r k s h hs
      rw [exec]
      split
      case h_1 expected heval =>
        have ht : (t.eval c s.ahead s.expected).1 = true := by rw [heval]
        have hready : Ready c contracts fuel p (t.facts true) { s with expected } :=
          (h.loop_body ht).of_ahead_eq rfl
        have hround := ih r _ _ hready (hs.of_eq rfl rfl rfl)
        have hflow : Flows c _ s _ := (hready.flows hdepth hrules r).of_reads_eq rfl rfl
        cases ho : exec c rules (run c rules fuel) r p { s with expected } with
        | aborted why s' =>
            rw [ho] at hround
            exact hround
        | finished s' =>
            rw [ho] at hround hflow
            -- a round reads a token, which leaves room for the calls of the next one
            obtain ⟨room', hlt, hnext⟩ := h.loop_next ht hflow
            exact hrecur (.loop t p) room' hlt r [] s' hnext hround
      case h_2 => exact hs.of_eq rfl rfl rfl
  | node rule p ih =>
      intro r k s h hs
      have hready : Ready c contracts fuel p k (s.enter c rule) :=
        ⟨h.ok, h.holds, h.ended, h.fits⟩
      rw [exec, Outcome.state_map]
      exact hs.leave hc rule (ih r k _ hready (hs.enter rule))
        (hready.flows hdepth hrules r).reads
  | wrap rule p ih =>
      intro r k s h hs
      have hready : Ready c contracts fuel p k (s.enterAround c rule) :=
        ⟨h.ok, h.holds, h.ended, h.fits⟩
      rw [exec, Outcome.state_map]
      exact hs.leaveAround hc rule (ih r k _ hready (hs.enterAround rule))
        (hready.flows hdepth hrules r).reads
  | attempt p q ihp ihq =>
      intro r k s h hs
      have hp := ihp .backtrack k s h.attempt_left hs
      rw [exec]
      cases ho : exec c rules (run c rules fuel) .backtrack p s with
      | finished s' =>
          rw [ho] at hp
          exact hp
      | aborted why s' =>
          rw [ho] at hp
          -- the attempt is taken back, so the second program starts where the first did
          have hq := ihq r k (s.undo s') (h.attempt_right.of_ahead_eq rfl) (hs.of_eq rfl rfl rfl)
          cases why with
          | exhausted => exact hp
          | _ => exact hq
  | resume p ih =>
      intro r k s h hs
      have hready : Ready c contracts fuel p k s := ⟨h.ok, h.holds, h.ended, h.fits⟩
      have hp := ih r k s hready hs
      have hflow := hready.flows hdepth hrules r
      rw [exec]
      split
      case h_1 s' ho =>
        rw [ho] at hp hflow
        exact .skipUpTo _ s' hp (hflow.reads.ended h.ended)
      case h_2 => exact hp
  | call phrase =>
      intro r k s h hs
      obtain ⟨contract, hcontract⟩ := h.exists_contract
      obtain ⟨room', hlt, hready⟩ := h.body hcontract (hrules phrase contract hcontract)
      exact hrecur (rules phrase) room' hlt r contract.facts s hready hs

/-- Every run of a checked program keeps the spans. -/
theorem run_lays (hc : c.Sorts all)
    (hdepth : ∀ phrase k, contracts phrase = some k → k.depth < callDepth)
    (hrules : ∀ phrase k, contracts phrase = some k →
      k.allows ((rules phrase).flow contracts k.facts) = true) (fuel : Nat) :
    ∀ p : Program φ, ∀ room < fuel, Lays c contracts all room (run c rules fuel) p := by
  induction fuel with
  | zero => exact fun p room h => absurd h (Nat.not_lt_zero _)
  | succ fuel ih =>
      intro p room hroom r k s h hs
      exact exec_lays hc hdepth hrules ih p r k s
        ⟨h.ok, h.holds, h.ended, h.fits.trans (Nat.le_of_lt_succ hroom)⟩ hs

end Programs

/-! ### Parses -/

section Parse

variable {o : Options} {tokens : List Token} {start : StartRule}

theorem contextOf_sorts (h : Listed tokens) :
    (contextOf o tokens).Sorts (significant tokens) where
  sorted := h.pairwise_index
  next behind ahead hall hinner := by
    let s : State (List Tree) := ⟨ahead, [], none, [], []⟩
    exact (index_lt_current (o := o) (s := s) h hall hinner).1

theorem State.initial_laid (c : Context) :
    (State.initial tokens).Laid c (significant tokens) :=
  ⟨[], rfl, fun _ ht => absurd ht List.not_mem_nil, rfl, List.suffix_rfl, trivial⟩

/-- Every start rule but that of scripts builds trees with the right spans. -/
theorem outcomeOf_laid (h : Listed tokens) (hstart : start ≠ .query) :
    (outcomeOf o start tokens).state.Laid (contextOf o tokens) (significant tokens) := by
  have hok : (start.program.flow contractOf []).ok = true := by
    cases start with
    | query => exact absurd rfl hstart
    | _ => rfl
  have hdepth := Program.flow_depth_le contractOf_depth start.program []
  have hroom : callDepth * (significant tokens).length +
      (start.program.flow contractOf []).depth < fuelFor tokens := by
    rw [fuelFor]
    rw [callDepth] at hdepth ⊢
    omega
  exact run_lays (contextOf_sorts h) contractOf_depth contractOf_kept _ start.program _ hroom _ []
    (State.initial tokens) ⟨hok, Facts.hold_nil, contextOf_ended h, le_rfl⟩ (State.initial_laid _)

/-- The statements of a script have the right spans. -/
theorem statements_laid {c : Context} {all : List Token} (hc : c.Sorts all)
    {s : State (List Tree)} {fuel : Nat} (he : c.Ended s.ahead)
    (hfuel : callDepth * (s.ahead.length + 1) ≤ fuel) (r : Reaction) (hs : s.Laid c all) :
    (exec c grammar (run c grammar fuel) r statements s).state.Laid c all := by
  have hdepth := Program.flow_depth_le contractOf_depth statements []
  refine exec_lays hc contractOf_depth contractOf_kept
    (run_lays hc contractOf_depth contractOf_kept fuel) statements r [] s
    ⟨by decide +kernel, Facts.hold_nil, he, ?_⟩ hs
  rw [Nat.mul_succ] at hfuel
  omega

/-- A script is one node; its parts are those of the statements and the end of the input. -/
theorem outcomeOf_script_rests (h : Listed tokens) :
    ∃ (first : Nat) (last : Option Nat) (parts : List Tree),
      (outcomeOf o .query tokens).state.built = [.node .query first last parts] ∧
        ∀ t ∈ parts, t.rule?.isSome = true → t.Rests (significant tokens) := by
  have hsorts := contextOf_sorts (o := o) h
  let opened : State (List Tree) := (State.initial tokens).enter (contextOf o tokens) .query
  have hlaid := statements_laid hsorts (s := opened) (contextOf_ended h)
    (Nat.le_add_right (callDepth * ((significant tokens).length + 1)) 62)
    o.strategy.reaction ((State.initial_laid _).enter _)
  rw [outcomeOf_script, Outcome.state_map]
  cases ho : exec (contextOf o tokens) grammar
      (run (contextOf o tokens) grammar (callDepth * ((significant tokens).length + 1) + 62))
      o.strategy.reaction statements opened with
  | aborted why s' =>
      rw [ho] at hlaid
      exact ⟨_, _, s'.built, rfl, fun t ht _ => hlaid.rests hsorts t ht⟩
  | finished s' =>
      rw [ho] at hlaid
      refine ⟨_, _, s'.built ++ [.token _], rfl, fun t ht hnode => ?_⟩
      rcases List.mem_append.1 ht with ht | ht
      · exact hlaid.rests hsorts t ht
      · rw [List.mem_singleton.1 ht] at hnode
        cases hnode

/-- The nodes of a parse tree have the spans of their leaves; only the root of a
script, which also has the end of the input, is left out. -/
theorem parse_rests (h : Listed tokens) {root : Tree}
    (hroot : (parse o start tokens).root = some root) {l : Located} {above : List Located}
    (hl : Lineage root l above) (hrule : l.tree.rule?.isSome = true)
    (hquery : l.tree.isRule .query = false) : l.tree.Rests (significant tokens) := by
  obtain ⟨t, hbuilt, -⟩ := outcomeOf_root o start tokens
  have ht : root = t := by
    rw [parse, Parse.ofOutcome, hbuilt] at hroot
    exact (Option.some.inj hroot).symm
  subst ht
  -- the root of a script is told from all other nodes, here and below
  have hparts : (root.isRule .query = false → root.Rests (significant tokens)) ∧
      ∀ part ∈ root.children, part.rule?.isSome = true → part.Rests (significant tokens) := by
    by_cases hstart : start = .query
    · subst hstart
      obtain ⟨first, last, parts, hscript, hparts⟩ := outcomeOf_script_rests (o := o) h
      rw [hbuilt, List.singleton_inj] at hscript
      subst hscript
      exact ⟨fun hne => absurd hne (by simp [Tree.isRule, Tree.rule?]), hparts⟩
    · have hrests : root.Rests (significant tokens) :=
        (outcomeOf_laid h hstart).rests (contextOf_sorts h) root (by rw [hbuilt]; simp)
      exact ⟨fun _ => hrests, fun part hpart _ => hrests.of_mem hpart⟩
  have hbelow : ∀ {l : Located} {above : List Located}, Lineage root l above → above ≠ [] →
      l.tree.rule?.isSome = true → l.tree.Rests (significant tokens) := by
    intro l above hl
    induction hl with
    | root => exact fun hne => absurd rfl hne
    | @part p part above hpart hp ih =>
        intro _ hnode
        have hmem := Located.mem_of_mem_children hpart
        cases hp with
        | root => exact hparts.2 part.tree hmem hnode
        | part hp' hp'' =>
            refine (ih (List.cons_ne_nil _ _) ?_).of_mem hmem
            cases htree : p.tree <;> simp_all [Tree.children, Tree.rule?]
  cases hl with
  | root => exact hparts.1 hquery
  | part hpart hp => exact hbelow (.part hpart hp) (List.cons_ne_nil _ _) hrule

end Parse

end Grammar

end MySqlAnalysis
