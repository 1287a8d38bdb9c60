import MySqlAnalysis.Proofs.Grammar.Building
import MySqlAnalysis.Proofs.Grammar.Completion

/-!
# The leaves of a parse tree

No token gets lost, is read twice or changes its place in the tree: the leaves
are the significant tokens, from the first one on, in order. A script that is
read to its end has all of them, one whose run is cancelled has those before the
token that cancelled it.
-/

set_option autoImplicit false

namespace MySqlAnalysis.Grammar

/-- What the leaves of the tree are that a start rule builds from a token list.
A list without a token that ends the input is read as if one followed. -/
def LeavesFit (rule : StartRule) (cancelled : Option Nat) (tokens : List Token)
    (leaves : List Nat) : Prop :=
  match rule, cancelled with
  | .query, none =>
    leaves = significantPositions tokens ++
      if tokens.any Token.isEof then [] else [tokens.length]
  | .query, some token => leaves = (significantPositions tokens).filter (· < token)
  | _, _ => leaves <+: significantPositions tokens

section Leaves

variable {o : Options} {tokens : List Token}

/-- What was read is the beginning of the significant tokens. -/
theorem leaves_of_reads {s : State (List Tree)} {t : Tree}
    (hreads : (State.initial tokens).Reads s) (hbuilt : s.built = [t]) :
    ∃ read, significant tokens = read ++ s.ahead ∧ (∀ u ∈ read, u.isEof = false) ∧
      t.leaves = read.map Token.index := by
  obtain ⟨read, hahead, hread, hleaves⟩ := hreads
  refine ⟨read, hahead, hread, ?_⟩
  rw [hbuilt, Tree.leavesAll_singleton] at hleaves
  exact hleaves

/-- A script that was read to its end has all significant tokens as its leaves. -/
theorem leaves_of_readsAll (h : Listed tokens) {s : State (List Tree)} {t : Tree}
    (hreads : (State.initial tokens).ReadsAll (contextOf o tokens) s) (hbuilt : s.built = [t]) :
    LeavesFit .query none tokens t.leaves := by
  obtain ⟨read, rest, hahead, hread, hend, hleaves⟩ := hreads
  have hahead' : significant tokens = read ++ rest := hahead
  have hleaves' : t.leaves =
      read.map Token.index ++ [((contextOf o tokens).peek rest 0).index] := by
    rw [hbuilt, Tree.leavesAll_singleton] at hleaves
    exact hleaves
  show t.leaves = _
  rw [hleaves', ← h.map_index_significant, ← h.any_isEof_significant, hahead']
  have hnone : read.any Token.isEof = false :=
    List.any_eq_false.2 fun u hu => by rw [hread u hu]; exact Bool.false_ne_true
  cases rest with
  | nil =>
      -- all tokens were read, and the end is the one past the list
      have hno : tokens.any Token.isEof = false := by
        rw [← h.any_isEof_significant, hahead', List.append_nil]
        exact hnone
      rw [List.append_nil, hnone]
      exact congrArg (fun i => read.map Token.index ++ [i]) (endingOf_index hno)
  | cons u us =>
      -- the token at which the script ends is the last one
      have hlast : us = [] := by
        cases us with
        | nil => rfl
        | cons v vs =>
            have hinner := h.inner_significant u (by
              rw [hahead', List.dropLast_append_cons]
              exact List.mem_append_right _ List.mem_cons_self)
            have heof : u.isEof = true := hend
            rw [hinner] at heof
            cases heof
      have heof : u.isEof = true := hend
      rw [hlast, List.any_append, List.any_cons, heof, hnone, List.map_append]
      exact (List.append_nil _).symm

/-- The tokens that were read come before the next one, the others do not. -/
theorem index_lt_current (h : Listed tokens) {s : State (List Tree)} {read : List Token}
    (hahead : significant tokens = read ++ s.ahead) (hread : ∀ u ∈ read, u.isEof = false) :
    (∀ u ∈ read, u.index < (s.current (contextOf o tokens)).index) ∧
      ∀ u ∈ s.ahead, (s.current (contextOf o tokens)).index ≤ u.index := by
  have hsorted := h.pairwise_index
  rw [hahead, List.map_append, List.pairwise_append] at hsorted
  rw [State.current]
  cases hs : s.ahead with
  | nil =>
      have hno : tokens.any Token.isEof = false := by
        rw [← h.any_isEof_significant, hahead, hs, List.append_nil]
        exact List.any_eq_false.2 fun u hu => by rw [hread u hu]; exact Bool.false_ne_true
      refine ⟨fun u hu => ?_, fun u hu => absurd hu List.not_mem_nil⟩
      have hmem : u ∈ significant tokens := hahead ▸ List.mem_append_left _ hu
      have hlt := h.index_lt_length (List.mem_filter.1 hmem).1
      rw [← endingOf_index hno] at hlt
      exact hlt
  | cons v vs =>
      rw [hs, List.map_cons] at hsorted
      refine ⟨fun u hu => ?_, fun u hu => ?_⟩
      · exact hsorted.2.2 _ (List.mem_map_of_mem hu) _ List.mem_cons_self
      · rcases List.mem_cons.1 hu with rfl | hu
        · exact le_rfl
        · exact (List.rel_of_pairwise_cons hsorted.2.1 (List.mem_map_of_mem hu)).le

/-- A run that was cancelled has the tokens before as its leaves. -/
theorem leaves_of_cancelled (h : Listed tokens) {s : State (List Tree)} {t : Tree}
    (hreads : (State.initial tokens).Reads s) (hbuilt : s.built = [t]) :
    LeavesFit .query (some (s.current (contextOf o tokens)).index) tokens t.leaves := by
  obtain ⟨read, hahead, hread, hleaves⟩ := leaves_of_reads hreads hbuilt
  obtain ⟨hbefore, hafter⟩ := index_lt_current (o := o) h hahead hread
  show t.leaves = _
  rw [hleaves, ← h.map_index_significant, hahead, List.map_append, List.filter_append]
  have hkept : (read.map Token.index).filter (· < (s.current (contextOf o tokens)).index) =
      read.map Token.index := by
    refine List.filter_eq_self.2 fun i hi => ?_
    obtain ⟨u, hu, rfl⟩ := List.mem_map.1 hi
    exact decide_eq_true (hbefore u hu)
  have hdropped : (s.ahead.map Token.index).filter
      (· < (s.current (contextOf o tokens)).index) = [] := by
    refine List.filter_eq_nil_iff.2 fun i hi => ?_
    obtain ⟨u, hu, rfl⟩ := List.mem_map.1 hi
    exact fun hlt => absurd (of_decide_eq_true hlt) (Nat.not_lt.2 (hafter u hu))
  rw [hkept, hdropped, List.append_nil]

/-- Every other start rule has some significant tokens, from the first one on, as
its leaves. -/
theorem leaves_of_flows (h : Listed tokens) {rule : StartRule} (hrule : rule ≠ .query)
    {t : Tree} (hbuilt : (outcomeOf o rule tokens).state.built = [t]) (cancelled : Option Nat) :
    LeavesFit rule cancelled tokens t.leaves := by
  obtain ⟨read, hahead, -, hleaves⟩ := leaves_of_reads (outcomeOf_flows hrule h).reads hbuilt
  have hpre : t.leaves <+: significantPositions tokens := by
    rw [hleaves, ← h.map_index_significant, hahead, List.map_append]
    exact List.prefix_append _ _
  cases rule with
  | query => exact absurd rfl hrule
  | simpleStatement => exact hpre
  | selectStatement => exact hpre
  | expr => exact hpre
  | identifier => exact hpre

theorem leaves_of_script (h : Listed tokens) {t : Tree}
    (hbuilt : (outcomeOf o .query tokens).state.built = [t]) :
    LeavesFit .query (outcomeOf o .query tokens).cancelled? tokens t.leaves := by
  have hend := outcomeOf_query (o := o) h
  have hfollows := outcomeOf_follows o .query tokens
  generalize outcomeOf o .query tokens = outcome at hbuilt hend hfollows ⊢
  cases hend with
  | finished hreads => exact leaves_of_readsAll h hreads hbuilt
  | cancelled token hreads =>
      rw [Outcome.cancelled?, hfollows.cancels token _ rfl]
      exact leaves_of_cancelled h hreads hbuilt

end Leaves

/-- The tree of every run, which is also the tree of the run's arena, has the
right leaves. The tokens are those of a text, possibly cut short. -/
theorem parse_leaves_fit (o : Options) (rule : StartRule) (d : Dialect) (text : String)
    (n : Nat) :
    ∃ t, (parse o rule ((tokenize d text).take n)).root = some t ∧
      (arenaOf o rule ((tokenize d text).take n)).Rooted t ∧
      LeavesFit rule (parse o rule ((tokenize d text).take n)).cancelled
        ((tokenize d text).take n) t.leaves := by
  have hlisted := (tokenize_listed d text).take n
  generalize (tokenize d text).take n = tokens at hlisted ⊢
  obtain ⟨t, hbuilt, hrooted⟩ := outcomeOf_root o rule tokens
  refine ⟨t, ?_, hrooted, ?_⟩
  · rw [parse, Parse.ofOutcome, hbuilt]
    rfl
  · by_cases hrule : rule = .query
    · subst hrule
      exact leaves_of_script hlisted hbuilt
    · exact leaves_of_flows hlisted hrule hbuilt _

end MySqlAnalysis.Grammar
