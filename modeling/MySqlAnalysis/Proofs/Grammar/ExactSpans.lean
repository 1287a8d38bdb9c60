import MySqlAnalysis.Proofs.Grammar.NodeSpans
import MySqlAnalysis.Proofs.Grammar.Twins
import MySqlAnalysis.Proofs.Token.Extent

/-!
# Nodes cover their leaves exactly

Each node of a parse tree starts at its first leaf and ends at its last one, also the
root of a script, which has the end of the input as a leaf. So the parts of a node lie
inside it, one after the other, and the text of a node is what stands in the source
from its first leaf to its last one (`parse_exact`).
-/

set_option autoImplicit false

namespace MySqlAnalysis

open Text

/-! ### Positions in order -/

/-- The first of some positions in order, or else what follows them, comes before the
others. -/
theorem headD_le_of_pairwise {xs : List Nat} {next : Nat}
    (h : (xs ++ [next]).Pairwise (· < ·)) : ∀ i ∈ xs ++ [next], xs.headD next ≤ i := by
  cases xs with
  | nil =>
      intro i hi
      rw [List.mem_singleton.1 hi]
      exact le_rfl
  | cons x xs =>
      intro i hi
      rcases List.mem_cons.1 hi with rfl | hi
      · exact le_rfl
      · exact Nat.le_of_lt (List.rel_of_pairwise_cons h hi)

theorem headD_mem (xs : List Nat) (next : Nat) : xs.headD next ∈ xs ++ [next] := by
  cases xs <;> simp

/-- The last of some positions in order comes after the others. -/
theorem exists_le_getLast?_of_pairwise {xs : List Nat} (h : xs.Pairwise (· < ·)) :
    ∀ i ∈ xs, ∃ j ∈ xs.getLast?, i ≤ j := by
  rcases List.eq_nil_or_concat xs with rfl | ⟨before, last, rfl⟩
  · exact fun i hi => absurd hi List.not_mem_nil
  · intro i hi
    rw [List.concat_eq_append] at h hi ⊢
    refine ⟨last, by simp, ?_⟩
    rcases List.mem_append.1 hi with hi | hi
    · exact Nat.le_of_lt ((List.pairwise_append.1 h).2.2 i hi last (List.mem_singleton_self last))
    · exact Nat.le_of_eq (List.mem_singleton.1 hi)

/-! ### Trees -/

namespace Tree

mutual

/-- What passes from nodes to their parts holds everywhere in a tree. -/
theorem inherit_located {P : Tree → Prop} (hparts : ∀ t, P t → ∀ part ∈ t.children, P part)
    (address : Address) (t : Tree) (h : P t) : ∀ l ∈ t.located address, P l.tree := by
  cases t with
  | token index => simpa [located] using h
  | skipped index => simpa [located] using h
  | node rule first last parts =>
      intro l hl
      rw [located] at hl
      rcases List.mem_cons.1 hl with rfl | hl
      · exact h
      · exact inherit_locatedFrom hparts address 0 parts (hparts _ h) l hl

/-- The same for the parts of a node. -/
theorem inherit_locatedFrom {P : Tree → Prop} (hparts : ∀ t, P t → ∀ part ∈ t.children, P part)
    (address : Address) (i : Nat) (ts : List Tree) (h : ∀ t ∈ ts, P t) :
    ∀ l ∈ locatedFrom address i ts, P l.tree := by
  cases ts with
  | nil => simp [locatedFrom]
  | cons t ts =>
      rw [List.forall_mem_cons] at h
      intro l hl
      rw [locatedFrom] at hl
      rcases List.mem_append.1 hl with hl | hl
      · exact inherit_located hparts (i :: address) t h.1 l hl
      · exact inherit_locatedFrom hparts address (i + 1) ts h.2 l hl

end

/-- A tree whose nodes have the spans of their leaves, which are tokens in order, and
what comes next comes after them. -/
structure Covers (tokens : List Token) (t : Tree) : Prop where
  spans : ∃ next, t.Spans next ∧ (t.leaves ++ [next]).Pairwise (· < ·)
  real : ∀ i ∈ t.leaves, ∃ u ∈ tokens, u.index = i

section Parts

variable {next : Nat} {parts : List Tree}

/-- A part is followed by the leaves of the parts after it. -/
theorem SpansAll.exists_next (h : SpansAll next parts) {part : Tree} (hpart : part ∈ parts) :
    ∃ next', part.Spans next' ∧
      (part.leaves ++ [next']).Sublist (leavesAll parts ++ [next]) := by
  obtain ⟨before, after, rfl⟩ := List.append_of_mem hpart
  rw [spansAll_append, SpansAll] at h
  refine ⟨(leavesAll after).headD next, h.2.1, ?_⟩
  rw [leavesAll_append, leavesAll, List.append_assoc, List.append_assoc]
  refine List.Sublist.trans ?_ (List.sublist_append_right _ _)
  -- of what follows the part only the first token counts
  exact (List.singleton_sublist.2 (headD_mem _ _)).append_left _

/-- A part starts at a leaf or at what follows all parts. -/
theorem SpansAll.first_mem (h : SpansAll next parts) {part : Tree} (hpart : part ∈ parts) :
    part.first ∈ leavesAll parts ++ [next] := by
  obtain ⟨next', hspans, hsub⟩ := h.exists_next hpart
  apply hsub.subset
  rw [hspans.first_eq]
  exact headD_mem _ _

/-- Parts stand one after the other. -/
theorem SpansAll.pairwise (h : SpansAll next parts)
    (hsorted : (leavesAll parts ++ [next]).Pairwise (· < ·)) :
    parts.Pairwise fun t t' => t.first ≤ t'.first ∧ ∀ j ∈ t.last?, j < t'.first := by
  induction parts with
  | nil => exact .nil
  | cons t ts ih =>
      rw [leavesAll, List.append_assoc, List.pairwise_append] at hsorted
      obtain ⟨-, hrest, hbefore⟩ := hsorted
      rw [SpansAll] at h
      refine List.pairwise_cons.2 ⟨fun t' ht' => ?_, ih h.2 hrest⟩
      have hfirst' := h.2.first_mem ht'
      constructor
      · rw [h.1.first_eq]
        rcases List.mem_append.1 (headD_mem t.leaves ((leavesAll ts).headD next)) with hmem | hmem
        · exact Nat.le_of_lt (hbefore _ hmem _ hfirst')
        · -- a part that read nothing starts where the next leaf is
          rw [List.mem_singleton.1 hmem]
          exact headD_le_of_pairwise hrest _ hfirst'
      · intro j hj
        rw [h.1.last?_eq] at hj
        exact hbefore j (List.mem_of_getLast? hj) _ hfirst'

end Parts

namespace Covers

variable {tokens : List Token} {t part : Tree}

theorem of_mem (h : t.Covers tokens) (hpart : part ∈ t.children) : part.Covers tokens := by
  cases t with
  | token index => cases hpart
  | skipped index => cases hpart
  | node rule first last parts =>
      obtain ⟨next, ⟨-, -, hspans⟩, hsorted⟩ := h.spans
      obtain ⟨next', hspans', hsub⟩ := hspans.exists_next hpart
      exact ⟨⟨next', hspans', hsorted.sublist hsub⟩,
        fun i hi => h.real i ((sublist_leavesAll hpart).subset hi)⟩

theorem sorted (h : t.Covers tokens) : t.leaves.Pairwise (· < ·) := by
  obtain ⟨next, -, hsorted⟩ := h.spans
  exact (List.pairwise_append.1 hsorted).1

theorem last?_eq (h : t.Covers tokens) : t.last? = t.leaves.getLast? := by
  obtain ⟨next, hspans, -⟩ := h.spans
  exact hspans.last?_eq

theorem first_eq (h : t.Covers tokens) {i : Nat} (hi : t.leaves.head? = some i) : t.first = i := by
  obtain ⟨next, hspans, -⟩ := h.spans
  rw [hspans.first_eq, List.headD_eq_head?_getD, hi]
  rfl

/-- The parts of a node do not reach beyond it. -/
theorem inside (h : t.Covers tokens) (hpart : part ∈ t.children) :
    t.first ≤ part.first ∧ ∀ j ∈ part.last?, ∃ k ∈ t.last?, j ≤ k := by
  cases t with
  | token index => cases hpart
  | skipped index => cases hpart
  | node rule first last parts =>
      obtain ⟨next, ⟨hfirst, -, hspans⟩, hsorted⟩ := h.spans
      constructor
      · show first ≤ part.first
        rw [hfirst]
        exact headD_le_of_pairwise hsorted _ (hspans.first_mem hpart)
      · intro j hj
        rw [(h.of_mem hpart).last?_eq] at hj
        rw [h.last?_eq]
        exact exists_le_getLast?_of_pairwise h.sorted j
          ((sublist_leavesAll hpart).subset (List.mem_of_getLast? hj))

/-- The parts of a node stand one after the other. -/
theorem ordered (h : t.Covers tokens) :
    t.children.Pairwise fun a b => a.first ≤ b.first ∧ ∀ j ∈ a.last?, j < b.first := by
  cases t with
  | token index => exact .nil
  | skipped index => exact .nil
  | node rule first last parts =>
      obtain ⟨next, ⟨-, -, hspans⟩, hsorted⟩ := h.spans
      exact hspans.pairwise hsorted

end Covers

end Tree

/-! ### Parses -/

namespace Grammar

section State

variable {c : Context} {all : List Token} {s s' : State (List Tree)}

/-- The leaves of the trees built so far are in order, and the next token comes after them. -/
theorem State.Laid.pairwise (hc : c.Sorts all) (h : s.Laid c all) :
    (Tree.leavesAll s.built ++ [(s.current c).index]).Pairwise (· < ·) := by
  obtain ⟨behind, hall, hinner, -, hleaves, -⟩ := h
  have hsorted := hc.sorted
  rw [hall, List.map_append] at hsorted
  refine List.pairwise_append.2
    ⟨(List.pairwise_append.1 hsorted).1.sublist hleaves.sublist, List.pairwise_singleton _ _,
      fun i hi j hj => ?_⟩
  obtain ⟨u, hu, rfl⟩ := List.mem_map.1 (hleaves.subset hi)
  rw [List.mem_singleton.1 hj]
  exact hc.next behind s.ahead hall hinner u hu

/-- The leaves of the trees built so far are tokens. -/
theorem State.Laid.exists_token (h : s.Laid c all) :
    ∀ i ∈ Tree.leavesAll s.built, ∃ u ∈ all, u.index = i := by
  obtain ⟨behind, hall, -, -, hleaves, -⟩ := h
  intro i hi
  obtain ⟨u, hu, rfl⟩ := List.mem_map.1 (hleaves.subset hi)
  exact ⟨u, hall ▸ List.mem_append_left _ hu, rfl⟩

/-- The tree of a state. -/
theorem State.Laid.covers {t : Tree} (hc : c.Sorts all) (h : s.Laid c all)
    (hbuilt : s.built = [t]) : t.Covers all := by
  have hsorted := h.pairwise hc
  have hreal := h.exists_token
  obtain ⟨-, -, -, -, -, hspans⟩ := h
  rw [hbuilt, Tree.leavesAll_singleton] at hsorted hreal
  rw [hbuilt, Tree.spansAll_singleton] at hspans
  exact ⟨⟨_, hspans, hsorted⟩, hreal⟩

/-- A node over everything that was read since `s` and the next token, as the root of a
script is: the next token is its last leaf. -/
theorem State.Laid.covers_consume (hc : c.Sorts all) (rule : Rule) (h : s'.Laid c all)
    (hreads : (s.enter c rule).Reads s') (hnext : s'.current c ∈ all) :
    (Tree.closed rule (s.current c).index (some (s'.current c).index)
      (s'.built ++ [.token (s'.current c).index])).Covers all := by
  have hsorted := h.pairwise hc
  have hreal := h.exists_token
  obtain ⟨-, -, -, -, -, hspans⟩ := h
  have hleaves : Tree.leavesAll (s'.built ++ [.token (s'.current c).index]) =
      Tree.leavesAll s'.built ++ [(s'.current c).index] := by
    rw [Tree.leavesAll_append, Tree.leavesAll_singleton, Tree.leaves]
  have hfirst : (s.current c).index =
      (Tree.leavesAll s'.built).headD (s'.current c).index := headD_of_reads hreads
  have hle : (s.current c).index ≤ (s'.current c).index := by
    rw [hfirst]
    exact headD_le_of_pairwise hsorted _ (List.mem_append_right _ (List.mem_singleton_self _))
  -- nothing follows the node, so any larger position can stand for what does
  refine ⟨⟨(s'.current c).index + 1, ⟨?_, ?_, ?_⟩, ?_⟩, ?_⟩
  · rw [hleaves, Tree.headD_append]
    exact hfirst
  · rw [hleaves, List.getLast?_append]
    simp [hle]
  · rw [Tree.spansAll_append, Tree.spansAll_singleton, Tree.leavesAll_singleton]
    exact ⟨hspans, trivial⟩
  · rw [Tree.leaves_closed, hleaves]
    refine List.pairwise_append.2 ⟨hsorted, List.pairwise_singleton _ _, fun i hi j hj => ?_⟩
    obtain ⟨k, hk, hik⟩ := exists_le_getLast?_of_pairwise hsorted i hi
    rw [List.getLast?_concat] at hk
    cases hk
    rw [List.mem_singleton.1 hj]
    exact Nat.lt_succ_of_le hik
  · rw [Tree.leaves_closed, hleaves]
    intro i hi
    rcases List.mem_append.1 hi with hi | hi
    · exact hreal i hi
    · exact ⟨_, hnext, (List.mem_singleton.1 hi).symm⟩

end State

section Parse

variable {o : Options} {tokens : List Token}

/-- The next token is one of the list when the list has an end. -/
theorem current_mem (h : endingOf tokens ∈ significant tokens) {s : State (List Tree)}
    (hs : s.ahead <:+ significant tokens) :
    s.current (contextOf o tokens) ∈ significant tokens := by
  rw [State.current, Context.peek]
  cases hahead : s.ahead with
  | nil => exact h
  | cons t ts => exact hs.subset (by rw [hahead]; exact List.mem_cons_self)

/-- The root of a script. -/
theorem outcomeOf_script_covers (h : Listed tokens) (hend : endingOf tokens ∈ significant tokens) :
    ∃ root, (outcomeOf o .query tokens).state.built = [root] ∧
      root.Covers (significant tokens) := by
  have hsorts := contextOf_sorts (o := o) h
  let opened : State (List Tree) := (State.initial tokens).enter (contextOf o tokens) .query
  have hfuel := Nat.le_add_right (callDepth * ((significant tokens).length + 1)) 62
  have hlaid := statements_laid hsorts (s := opened) (contextOf_ended h) hfuel
    o.strategy.reaction ((State.initial_laid _).enter _)
  have hreads := (statements_flows (c := contextOf o tokens) (s := opened) (contextOf_ended h)
    hfuel o.strategy.reaction).reads
  rw [outcomeOf_script, Outcome.state_map]
  cases ho : exec (contextOf o tokens) grammar
      (run (contextOf o tokens) grammar (callDepth * ((significant tokens).length + 1) + 62))
      o.strategy.reaction statements opened with
  | aborted why s' =>
      -- a cancelled script has no leaf for the end of the input
      rw [ho] at hlaid hreads
      exact ⟨_, rfl, ((State.initial_laid _).leave hsorts .query hlaid hreads).covers hsorts rfl⟩
  | finished s' =>
      rw [ho] at hlaid hreads
      have hahead : s'.ahead <:+ significant tokens := by
        obtain ⟨behind, hall, -⟩ := id hlaid
        exact ⟨behind, hall.symm⟩
      exact ⟨_, rfl, hlaid.covers_consume hsorts .query hreads (current_mem hend hahead)⟩

/-- Every node of a parse tree covers its leaves. -/
theorem parse_covers (o : Options) (start : StartRule) (h : Listed tokens)
    (hend : endingOf tokens ∈ significant tokens) :
    ∃ root, (parse o start tokens).root = some root ∧ root.Covers (significant tokens) := by
  obtain ⟨root, hbuilt, hroot⟩ : ∃ root, (outcomeOf o start tokens).state.built = [root] ∧
      root.Covers (significant tokens) := by
    by_cases hstart : start = .query
    · subst hstart
      exact outcomeOf_script_covers h hend
    · obtain ⟨t, hbuilt, -⟩ := outcomeOf_root o start tokens
      exact ⟨t, hbuilt, (outcomeOf_laid h hstart).covers (contextOf_sorts h) hbuilt⟩
  refine ⟨root, ?_, hroot⟩
  rw [parse, Parse.ofOutcome, hbuilt]
  rfl

end Parse

end Grammar

/-! ### Texts -/

section Text

variable {d : Dialect} {text : String}

/-- What a tree of a document tells about its place: it starts at its first leaf and ends
at its last one, and its text stands in the source from the one to the other. A tree
without a leaf spans nothing: it has neither an end nor a text. The parts of a node lie
inside it, one after the other. -/
structure Document.Exact (d : Document) (t : Tree) : Prop where
  first : ∀ i ∈ t.leaves.head?, t.first = i
  last : t.last? = t.leaves.getLast?
  text : ∀ i ∈ t.leaves.head?, ∀ j ∈ t.leaves.getLast?, ∃ u v part,
    d.tokens[i]? = some u ∧ d.tokens[j]? = some v ∧
      slice? d.source.toList u.start v.finish = some part ∧ d.text t = String.ofList part
  empty : t.leaves = [] → d.text t = ""
  inside : ∀ part ∈ t.children, t.first ≤ part.first ∧ ∀ j ∈ part.last?, ∃ k ∈ t.last?, j ≤ k
  ordered : t.children.Pairwise fun a b => a.first ≤ b.first ∧ ∀ j ∈ a.last?, j < b.first

/-- A leaf is a token of the text. -/
theorem Tree.Covers.getElem?_leaf {t : Tree} (h : t.Covers (significant (tokenize d text)))
    {i : Nat} (hi : i ∈ t.leaves) : ∃ u, (tokenize d text)[i]? = some u := by
  obtain ⟨u, hu, rfl⟩ := h.real i hi
  exact ⟨u, (tokenize_listed d text).getElem?_index (List.mem_filter.1 hu).1⟩

/-- A tree that covers its leaves tells its place. -/
theorem Tree.Covers.exact {t : Tree} (h : t.Covers (significant (tokenize d text)))
    (root : Option Tree) : Document.Exact ⟨text, (tokenize d text).toArray, root⟩ t where
  first i hi := h.first_eq hi
  last := h.last?_eq
  text i hi j hj := by
    obtain ⟨u, hu⟩ := h.getElem?_leaf (List.mem_of_mem_head? hi)
    obtain ⟨v, hv⟩ := h.getElem?_leaf (List.mem_of_getLast? hj)
    have hij : i ≤ j := by
      obtain ⟨k, hk, hle⟩ := exists_le_getLast?_of_pairwise h.sorted i (List.mem_of_mem_head? hi)
      rwa [Option.mem_unique hj hk]
    obtain ⟨part, hpart⟩ := tokenize_slice hu hv hij
    refine ⟨u, v, part, by simpa using hu, by simpa using hv, hpart, ?_⟩
    have hlast : t.last? = some j := h.last?_eq.trans hj
    rw [Token.finish] at hpart
    simp [Document.text, Document.firstToken?, Document.lastToken?, h.first_eq hi, hlast, hu, hv,
      hpart]
  empty hnil := by
    have hlast : t.last? = none := by rw [h.last?_eq, hnil]; rfl
    rw [Document.text, Document.lastToken?, hlast]
    cases Document.firstToken? _ t <;> rfl
  inside part hpart := h.inside hpart
  ordered := h.ordered

/-- Whatever a text, the settings and the start rule are, a tree is read, and all its
nodes and leaves tell their exact place in the text. -/
theorem parse_exact (d : Dialect) (text : String) (o : Grammar.Options)
    (start : Grammar.StartRule) :
    ∃ root, (Grammar.parse o start (tokenize d text)).root = some root ∧
      ∀ l ∈ root.nodes,
        Document.Exact ⟨text, (tokenize d text).toArray, some root⟩ l.tree := by
  have hending := List.mem_of_getLast? (Grammar.tokenize_ending d text).1
  obtain ⟨root, hroot, hcovers⟩ := Grammar.parse_covers o start (tokenize_listed d text) hending
  refine ⟨root, hroot, fun l hl => ?_⟩
  have hl : l.tree.Covers (significant (tokenize d text)) :=
    Tree.inherit_located (fun t ht part => ht.of_mem) [] root hcovers l hl
  exact hl.exact (some root)

end Text

end MySqlAnalysis
