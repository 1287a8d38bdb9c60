import Mathlib.Data.List.Forall2
import MySqlAnalysis.Proofs.Grammar.Twins
import MySqlAnalysis.Tree.Document

/-!
# Spacing does not change a parse

Two runs over twin inputs move side by side: they stand at the same place, expect
the same kinds, have built trees of one shape over tokens at the same places and made
the same reports about tokens at the same places (`State.Parallel`). Every program
whose looks are guarded keeps this (`run_parallel`), and the programs of all phrases
are guarded (`grammar_guarded`).

So blanks and comments between the tokens of a text change neither the outcome of a
parse nor its printed tree nor what is reported, if the mode that ignores spaces is
set or no two tokens are brought together or torn apart (`parse_ignores_spacing`).
-/

set_option autoImplicit false

namespace MySqlAnalysis

/-! ### Trees over related tokens -/

namespace Tree

mutual

/-- Trees of one shape whose tokens are related. -/
inductive Alike (R : Nat → Nat → Prop) : Tree → Tree → Prop
  | token {i j : Nat} : R i j → Alike R (token i) (token j)
  | skipped {i j : Nat} : R i j → Alike R (skipped i) (skipped j)
  | node {rule : Rule} {first first' : Nat} {last last' : Option Nat}
      {children children' : List Tree} :
      R first first' → Option.Rel R last last' → AlikeAll R children children' →
        Alike R (node rule first last children) (node rule first' last' children')

/-- Lists of trees of one shape whose tokens are related. -/
inductive AlikeAll (R : Nat → Nat → Prop) : List Tree → List Tree → Prop
  | nil : AlikeAll R [] []
  | cons {t t' : Tree} {ts ts' : List Tree} :
      Alike R t t' → AlikeAll R ts ts' → AlikeAll R (t :: ts) (t' :: ts')

end

variable {R : Nat → Nat → Prop}

theorem alikeAll_of_forall₂ {ts ts' : List Tree} (h : List.Forall₂ (Alike R) ts ts') :
    AlikeAll R ts ts' := by
  induction h with
  | nil => exact .nil
  | cons ht _ ih => exact .cons ht ih

theorem Alike.first {t t' : Tree} (h : t.Alike R t') : R t.first t'.first := by
  cases h with
  | token h => exact h
  | skipped h => exact h
  | node h => exact h

/-- The last trees of two related lists, and those before them. -/
theorem forall₂_getLast? {ts ts' : List Tree} (h : List.Forall₂ (Alike R) ts ts') :
    Option.Rel (Alike R) ts.getLast? ts'.getLast? ∧
      List.Forall₂ (Alike R) ts.dropLast ts'.dropLast := by
  induction h with
  | nil => exact ⟨.none, .nil⟩
  | @cons t t' ts ts' ht hts ih =>
      cases hts with
      | nil => exact ⟨.some ht, .nil⟩
      | cons hu hus => exact ⟨ih.1, .cons ht ih.2⟩

theorem firstAround_related {ts ts' : List Tree} (h : List.Forall₂ (Alike R) ts ts')
    {current current' : Nat} (hcurrent : R current current') :
    R (firstAround current ts) (firstAround current' ts') := by
  have hlast := (forall₂_getLast? h).1
  unfold firstAround
  generalize ts.getLast? = t at hlast ⊢
  generalize ts'.getLast? = t' at hlast ⊢
  cases hlast with
  | none => exact hcurrent
  | some ht => exact ht.first

end Tree

namespace Grammar

/-! ### States side by side -/

/-- Reports of the same error about tokens at the same place. -/
structure Report.Alike (ts ts' : List Token) (r r' : Report) : Prop where
  offending : Paired ts ts' r.offending r'.offending
  expected : r.expected = r'.expected
  cause : r.cause = r'.cause

/-- The same reason to stop, at tokens at the same place. -/
inductive Abort.Alike (ts ts' : List Token) : Abort → Abort → Prop
  | cancelled {i j : Nat} : Aligned ts ts' i j → Abort.Alike ts ts' (.cancelled i) (.cancelled j)
  | resync : Abort.Alike ts ts' .resync .resync
  | backtrack : Abort.Alike ts ts' .backtrack .backtrack
  | exhausted : Abort.Alike ts ts' .exhausted .exhausted

/-- The states of two runs at the same place of two inputs. -/
structure State.Parallel (ts ts' : List Token) (s s' : State (List Tree)) : Prop where
  ahead : ∃ n, s.ahead = ts.drop n ∧ s'.ahead = ts'.drop n
  expected : s.expected = s'.expected
  last : Option.Rel (Aligned ts ts') s.last s'.last
  built : List.Forall₂ (Tree.Alike (Aligned ts ts')) s.built s'.built
  reports : List.Forall₂ (Report.Alike ts ts') s.reports s'.reports

/-- The outcomes of two runs over two inputs. -/
inductive Outcome.Parallel (ts ts' : List Token) : Outcome (List Tree) → Outcome (List Tree) → Prop
  | finished {s s' : State (List Tree)} :
      s.Parallel ts ts' s' → Outcome.Parallel ts ts' (.finished s) (.finished s')
  | aborted {why why' : Abort} {s s' : State (List Tree)} :
      why.Alike ts ts' why' → s.Parallel ts ts' s' →
        Outcome.Parallel ts ts' (.aborted why s) (.aborted why' s')

namespace Outcome.Parallel

variable {ts ts' : List Token} {o o' : Outcome (List Tree)}

theorem state (h : o.Parallel ts ts' o') : o.state.Parallel ts ts' o'.state := by
  cases h with
  | finished hs => exact hs
  | aborted _ hs => exact hs

theorem andThen {f f' : State (List Tree) → Outcome (List Tree)} (h : o.Parallel ts ts' o')
    (hf : ∀ s s', s.Parallel ts ts' s' → (f s).Parallel ts ts' (f' s')) :
    (o.andThen f).Parallel ts ts' (o'.andThen f') := by
  cases h with
  | finished hs => exact hf _ _ hs
  | aborted hwhy hs => exact .aborted hwhy hs

theorem map {f f' : State (List Tree) → State (List Tree)} (h : o.Parallel ts ts' o')
    (hf : ∀ s s', s.Parallel ts ts' s' → (f s).Parallel ts ts' (f' s')) :
    (o.map f).Parallel ts ts' (o'.map f') := by
  cases h with
  | finished hs => exact .finished (hf _ _ hs)
  | aborted hwhy hs => exact .aborted hwhy (hf _ _ hs)

theorem cancelled? (h : o.Parallel ts ts' o') :
    Option.Rel (Aligned ts ts') o.cancelled? o'.cancelled? := by
  cases h with
  | finished => exact .none
  | aborted hwhy =>
      cases hwhy with
      | cancelled h => exact .some h
      | resync => exact .none
      | backtrack => exact .none
      | exhausted => exact .none

end Outcome.Parallel

/-! ### Single moves -/

section Moves

variable {c c' : Context} {ts ts' : List Token} {s s' : State (List Tree)}

namespace State.Parallel

theorem note (h : s.Parallel ts ts' s') (expected : List TokenKind) :
    State.Parallel ts ts' { s with expected } { s' with expected } :=
  ⟨h.ahead, rfl, h.last, h.built, h.reports⟩

theorem undo (h : s.Parallel ts ts' s') {u u' : State (List Tree)} (hu : u.Parallel ts ts' u') :
    (s.undo u).Parallel ts ts' (s'.undo u') :=
  ⟨h.ahead, h.expected, h.last, h.built, hu.reports⟩

theorem enter (h : s.Parallel ts ts' s') (rule : Rule) :
    (s.enter c rule).Parallel ts ts' (s'.enter c' rule) :=
  ⟨h.ahead, h.expected, h.last, .nil, h.reports⟩

theorem enterAround (h : s.Parallel ts ts' s') (rule : Rule) :
    (s.enterAround c rule).Parallel ts ts' (s'.enterAround c' rule) := by
  refine ⟨h.ahead, h.expected, h.last, ?_, h.reports⟩
  have hlast := (Tree.forall₂_getLast? h.built).1
  show List.Forall₂ _ s.built.getLast?.toList s'.built.getLast?.toList
  generalize s.built.getLast? = t at hlast ⊢
  generalize s'.built.getLast? = t' at hlast ⊢
  cases hlast with
  | none => exact .nil
  | some ht => exact .cons ht .nil

/-- Numbers of tokens are compared alike, so a node that read nothing is one on both sides. -/
theorem closed (hc : Twins c c' ts ts') {rule : Rule} {i j : Nat} (hij : Aligned ts ts' i j)
    {u u' : State (List Tree)} (hu : u.Parallel ts ts' u') :
    (Tree.closed rule i u.last u.built).Alike (Aligned ts ts')
      (Tree.closed rule j u'.last u'.built) := by
  refine .node hij ?_ (Tree.alikeAll_of_forall₂ hu.built)
  have hlast := hu.last
  generalize u.last = last at hlast ⊢
  generalize u'.last = last' at hlast ⊢
  cases hlast with
  | none => exact .none
  | @some k l hkl =>
      have hle := hc.aligned_le_iff hij hkl
      by_cases hik : i ≤ k
      · simpa [Option.filter_some, hik, hle.1 hik] using Option.Rel.some hkl
      · have hjl : ¬ j ≤ l := fun hjl => hik (hle.2 hjl)
        simp [Option.filter_some, hik, hjl]

variable (hc : Twins c c' ts ts') (h : s.Parallel ts ts' s')

include hc h

theorem length_eq : s.ahead.length = s'.ahead.length := by
  obtain ⟨n, hahead, hahead'⟩ := h.ahead
  rw [hahead, hahead', List.length_drop, List.length_drop, hc.length_eq]

theorem kindAt_eq (k : Nat) : c.kindAt s.ahead k = c'.kindAt s'.ahead k := by
  obtain ⟨n, hahead, hahead'⟩ := h.ahead
  rw [hahead, hahead']
  exact hc.kindAt_eq n k

theorem eval_eq {t : Test} (ht : t.guarded = true) :
    t.eval c s.ahead s.expected = t.eval c' s'.ahead s'.expected := by
  obtain ⟨n, hahead, hahead'⟩ := h.ahead
  rw [hahead, hahead', h.expected]
  exact hc.eval_eq n t ht _

theorem current : Paired ts ts' (s.current c) (s'.current c') := by
  obtain ⟨n, hahead, hahead'⟩ := h.ahead
  rw [State.current, State.current, hahead, hahead']
  exact hc.peek n 0

theorem isEof_eq : (s.current c).isEof = (s'.current c').isEof := by
  have hkind : (s.current c).kind = (s'.current c').kind :=
    congrArg Prod.fst ((h.current hc).content_eq hc.content)
  rw [Token.isEof, Token.isEof, hkind]

/-- A token is moved to the trees on both sides. -/
theorem shift (leaf : Nat → Tree)
    (hleaf : ∀ {i j}, Aligned ts ts' i j → (leaf i).Alike (Aligned ts ts') (leaf j)) :
    (s.shift c fun i built => built ++ [leaf i]).Parallel ts ts'
      (s'.shift c' fun i built => built ++ [leaf i]) where
  ahead := by
    obtain ⟨n, hahead, hahead'⟩ := h.ahead
    simp only [State.shift, h.isEof_eq hc]
    split
    · exact ⟨n, hahead, hahead'⟩
    · exact ⟨n + 1, by rw [hahead, List.tail_drop], by rw [hahead', List.tail_drop]⟩
  expected := h.expected
  last := .some (h.current hc).aligned
  built := List.rel_append h.built (.cons (hleaf (h.current hc).aligned) .nil)
  reports := h.reports

theorem consume : (s.consume c).Parallel ts ts' (s'.consume c') := by
  have hshift := h.shift hc .token .token
  exact hshift.note []

theorem skip : (s.skip c).Parallel ts ts' (s'.skip c') :=
  h.shift hc .skipped .skipped

theorem report (cause : Cause) : (s.report c cause).Parallel ts ts' (s'.report c' cause) :=
  ⟨h.ahead, h.expected, h.last, h.built,
    List.rel_append h.reports (.cons ⟨h.current hc, h.expected, rfl⟩ .nil)⟩

theorem fail (r : Reaction) (cause : Cause) :
    (s.fail c r cause).Parallel ts ts' (s'.fail c' r cause) := by
  cases r with
  | bail => exact .aborted (.cancelled (h.current hc).aligned) h
  | recover => exact .aborted .resync (h.report hc cause)
  | backtrack => exact .aborted .backtrack h

theorem refuse (r : Reaction) (why : Refusal) :
    (s.refuse c r why).Parallel ts ts' (s'.refuse c' r why) := by
  cases why with
  | mismatch => exact h.fail hc r _
  | noAlternative starts =>
      rw [State.refuse, State.refuse, h.expected]
      exact (h.note _).fail hc r _
  | gate rule version => exact h.fail hc r _

theorem expect (r : Reaction) (kind : TokenKind) :
    (s.expect c r kind).Parallel ts ts' (s'.expect c' r kind) := by
  have hnote := h.note (noteKind s.expected kind)
  rw [State.expect, State.expect]
  simp only [h.kindAt_eq hc, ← h.expected]
  split
  · exact .finished (hnote.consume hc)
  · split
    · exact .finished (((hnote.report hc _).skip hc).consume hc)
    · split
      · exact .finished (((hnote.note [kind]).report hc _).note [])
      · exact hnote.fail hc r _

theorem leave (rule : Rule) {u u' : State (List Tree)} (hu : u.Parallel ts ts' u') :
    (State.leave c rule s u).Parallel ts ts' (State.leave c' rule s' u') :=
  ⟨hu.ahead, hu.expected, hu.last,
    List.rel_append h.built (.cons (closed hc (h.current hc).aligned hu) .nil), hu.reports⟩

theorem leaveAround (rule : Rule) {u u' : State (List Tree)} (hu : u.Parallel ts ts' u') :
    (State.leaveAround c rule s u).Parallel ts ts' (State.leaveAround c' rule s' u') := by
  have hfirst := Tree.firstAround_related h.built (h.current hc).aligned
  exact ⟨hu.ahead, hu.expected, hu.last,
    List.rel_append (Tree.forall₂_getLast? h.built).2 (.cons (closed hc hfirst hu) .nil),
    hu.reports⟩

theorem skipUpTo (n : Nat) : (State.skipUpTo c n s).Parallel ts ts' (State.skipUpTo c' n s') := by
  induction n generalizing s s' with
  | zero => exact h
  | succ n ih =>
      have hend : Look.atStatementEnd.holds c s.ahead = Look.atStatementEnd.holds c' s'.ahead := by
        simp only [Look.atStatementEnd, Look.holds, h.kindAt_eq hc]
      rw [State.skipUpTo, State.skipUpTo, hend]
      split
      · exact h
      · exact ih (h.skip hc)

theorem skipStatement : (s.skipStatement c).Parallel ts ts' (s'.skipStatement c') := by
  rw [State.skipStatement, State.skipStatement, ← h.length_eq hc]
  exact h.skipUpTo hc _

end State.Parallel

end Moves

/-! ### Programs -/

section Programs

variable {φ : Type}

/-- Whether all looks of a program are guarded. -/
def Program.guarded : Program φ → Bool
  | .seq p q => p.guarded && q.guarded
  | .cond t p q => t.guarded && p.guarded && q.guarded
  | .loop t p => t.guarded && p.guarded
  | .node _ p => p.guarded
  | .wrap _ p => p.guarded
  | .attempt p q => p.guarded && q.guarded
  | .resume p => p.guarded
  | _ => true

variable {c c' : Context} {ts ts' : List Token} {rules : φ → Program φ}
  {recur recur' : Reaction → Program φ → State (List Tree) → Outcome (List Tree)}

/-- A guarded program moves side by side when everything that it calls does. -/
theorem exec_parallel (hc : Twins c c' ts ts') (hrules : ∀ phrase, (rules phrase).guarded = true)
    (hrecur : ∀ r p s s', p.guarded = true → s.Parallel ts ts' s' →
      (recur r p s).Parallel ts ts' (recur' r p s')) (p : Program φ) :
    ∀ r s s', p.guarded = true → s.Parallel ts ts' s' →
      (exec c rules recur r p s).Parallel ts ts' (exec c' rules recur' r p s') := by
  induction p with
  | done => exact fun r s s' _ h => .finished h
  | advance => exact fun r s s' _ h => .finished (h.consume hc)
  | expect kind => exact fun r s s' _ h => h.expect hc r kind
  | refuse why => exact fun r s s' _ h => h.refuse hc r why
  | seq p q ihp ihq =>
      intro r s s' hp h
      rw [Program.guarded, Bool.and_eq_true] at hp
      exact (ihp r s s' hp.1 h).andThen fun u u' hu => ihq r u u' hp.2 hu
  | cond t p q ihp ihq =>
      intro r s s' hp h
      rw [Program.guarded, Bool.and_eq_true, Bool.and_eq_true] at hp
      rw [exec, exec, ← h.eval_eq hc hp.1.1]
      split
      · exact ihp r _ _ hp.1.2 (h.note _)
      · exact ihq r _ _ hp.2 (h.note _)
  | loop t p ih =>
      intro r s s' hp h
      obtain ⟨ht, hbody⟩ := Bool.and_eq_true_iff.1 hp
      rw [exec, exec, ← h.eval_eq hc ht]
      split
      · exact (ih r _ _ hbody (h.note _)).andThen fun u u' hu => hrecur r (.loop t p) u u' hp hu
      · exact .finished (h.note _)
  | node rule p ih =>
      intro r s s' hp h
      exact (ih r _ _ hp (h.enter rule)).map fun u u' hu => h.leave hc rule hu
  | wrap rule p ih =>
      intro r s s' hp h
      exact (ih r _ _ hp (h.enterAround rule)).map fun u u' hu => h.leaveAround hc rule hu
  | attempt p q ihp ihq =>
      intro r s s' hp h
      rw [Program.guarded, Bool.and_eq_true] at hp
      have hfirst := ihp .backtrack s s' hp.1 h
      rw [exec, exec]
      generalize exec c rules recur .backtrack p s = o at hfirst ⊢
      generalize exec c' rules recur' .backtrack p s' = o' at hfirst ⊢
      cases hfirst with
      | finished hu => exact .finished hu
      | aborted hwhy hu =>
          -- the other alternative starts from the state before, with the reports since
          have hother := ihq r _ _ hp.2 (h.undo hu)
          cases hwhy with
          | cancelled => exact hother
          | resync => exact hother
          | backtrack => exact hother
          | exhausted => exact .aborted .exhausted hu
  | resume p ih =>
      intro r s s' hp h
      have hbody := ih r s s' hp h
      rw [exec, exec]
      generalize exec c rules recur r p s = o at hbody ⊢
      generalize exec c' rules recur' r p s' = o' at hbody ⊢
      cases hbody with
      | finished hu => exact .finished hu
      | aborted hwhy hu =>
          cases hwhy with
          | cancelled hij => exact .aborted (.cancelled hij) hu
          | resync => exact .finished (hu.skipStatement hc)
          | backtrack => exact .aborted .backtrack hu
          | exhausted => exact .aborted .exhausted hu
  | call phrase => exact fun r s s' _ h => hrecur r (rules phrase) s s' (hrules phrase) h

/-- Two runs of a guarded program over twin inputs move side by side. -/
theorem run_parallel (hc : Twins c c' ts ts') (hrules : ∀ phrase, (rules phrase).guarded = true)
    (fuel : Nat) :
    ∀ r p s s', p.guarded = true → s.Parallel ts ts' s' →
      (run c rules fuel r p s).Parallel ts ts' (run c' rules fuel r p s') := by
  induction fuel with
  | zero => exact fun r p s s' _ h => .aborted .exhausted h
  | succ fuel ih => exact fun r p s s' hp h => exec_parallel hc hrules ih p r s s' hp h

end Programs

theorem exprBody_guarded (power : Nat) : (exprBody power).guarded = true :=
  exprBody_of_lt (P := fun p => p.guarded = true) (by decide) power

theorem bitExprBody_guarded (power : Nat) : (bitExprBody power).guarded = true :=
  bitExprBody_of_lt (P := fun p => p.guarded = true) (by decide) power

/-- The grammar asks for adjacent tokens only where spaces can be ignored. -/
theorem grammar_guarded (phrase : Phrase) : (grammar phrase).guarded = true := by
  cases phrase with
  | expr power => exact exprBody_guarded power
  | bitExpr power => exact bitExprBody_guarded power
  | frame depth => cases depth <;> rfl
  | alterTokens depth => cases depth <;> rfl
  | _ => rfl

/-! ### Printed trees and messages -/

section Printing

variable {ts ts' : List Token}

mutual

/-- Trees over tokens that are printed alike are printed alike. -/
theorem render_of_alike {R : Nat → Nat → Prop} {d d' : Document}
    (hleaf : ∀ i j, R i j → d.leafText i = d'.leafText j) :
    ∀ {t t' : Tree}, t.Alike R t' → d.render t = d'.render t'
  | .token _, _, .token h => hleaf _ _ h
  | .skipped _, _, .skipped h => hleaf _ _ h
  | .node rule first last children, _, .node _ _ hall => by
      rw [Document.render, Document.render, renderAll_of_alike hleaf hall]

theorem renderAll_of_alike {R : Nat → Nat → Prop} {d d' : Document}
    (hleaf : ∀ i j, R i j → d.leafText i = d'.leafText j) :
    ∀ {ts ts' : List Tree}, Tree.AlikeAll R ts ts' → d.renderAll ts = d'.renderAll ts'
  | [], _, .nil => rfl
  | t :: ts, _, .cons ht hts => by
      rw [Document.renderAll, Document.renderAll, render_of_alike hleaf ht,
        renderAll_of_alike hleaf hts]

end

theorem Report.Alike.message_eq {r r' : Report} (h : r.Alike ts ts' r')
    (hcontent : ts.map Token.content = ts'.map Token.content) : r.message = r'.message := by
  have hsame := h.offending.content_eq hcontent
  have hkind : r.offending.kind = r'.offending.kind := congrArg Prod.fst hsame
  have htext : r.offending.text = r'.offending.text := congrArg Prod.snd hsame
  have hquoted : quoted r.offending = quoted r'.offending := by
    rw [quoted, quoted, Token.isEof, Token.isEof, hkind, htext]
  rw [message, message, h.cause, h.expected, hquoted]

end Printing

/-! ### Two parses -/

/-- Events about the same error: the same words, expected kinds and failure, and offending
tokens at the same place among the significant ones. -/
structure SameEvent (ts ts' : List Token) (r r' : Report) : Prop where
  message : r.message = r'.message
  expected : r.expected = r'.expected
  failure : r.cause.failure? = r'.cause.failure?
  offending : ∃ k : Nat, ts[k]? = some r.offending ∧ ts'[k]? = some r'.offending

/-- Two parses that differ in nothing but the numbering of the tokens. -/
structure SameParse (text text' : String) (tokens tokens' : List Token) (p p' : Parse) : Prop where
  /-- Both runs finished, or both were cancelled at the same place. -/
  cancelled : (p.cancelled = none ∧ p'.cancelled = none) ∨
    ∃ (k : Nat) (t t' : Token), (significant tokens)[k]? = some t ∧
      (significant tokens')[k]? = some t' ∧ p.cancelled = some t.index ∧
      p'.cancelled = some t'.index
  /-- The trees are printed alike. -/
  tree : p.root.map (Document.render ⟨text, tokens.toArray, p.root⟩) =
    p'.root.map (Document.render ⟨text', tokens'.toArray, p'.root⟩)
  events : List.Forall₂ (SameEvent (significant tokens) (significant tokens')) p.reports p'.reports

section Parses

variable {tokens tokens' : List Token}

/-- A token that is paired with another one is printed like it. -/
theorem leafText_eq (h : Listed tokens) (h' : Listed tokens')
    (hcontent : (significant tokens).map Token.content = (significant tokens').map Token.content)
    {d d' : Document} (hd : d.tokens = tokens.toArray) (hd' : d'.tokens = tokens'.toArray)
    {i j : Nat} (hij : Aligned (significant tokens) (significant tokens') i j) :
    d.leafText i = d'.leafText j := by
  obtain ⟨t, t', hpaired, rfl, rfl⟩ := hij
  have hsame := hpaired.content_eq hcontent
  obtain ⟨k, ht, ht'⟩ := hpaired
  have hget : d.tokens[t.index]? = some t := by
    rw [hd, List.getElem?_toArray]
    exact h.getElem?_index (List.mem_filter.1 (List.mem_of_getElem? ht)).1
  have hget' : d'.tokens[t'.index]? = some t' := by
    rw [hd', List.getElem?_toArray]
    exact h'.getElem?_index (List.mem_filter.1 (List.mem_of_getElem? ht')).1
  have hkind : t.kind = t'.kind := congrArg Prod.fst hsame
  have htext : t.text = t'.text := congrArg Prod.snd hsame
  have heof : t.isEof = t'.isEof := by rw [Token.isEof, Token.isEof, hkind]
  simp only [Document.leafText, hget, hget', heof, htext]

theorem sameParse_of_parallel {text text' : String} (h : Listed tokens) (h' : Listed tokens')
    (hcontent : (significant tokens).map Token.content = (significant tokens').map Token.content)
    {o o' : Outcome (List Tree)} (ho : o.Parallel (significant tokens) (significant tokens') o') :
    SameParse text text' tokens tokens' (.ofOutcome o) (.ofOutcome o') where
  cancelled := by
    have hcancelled : Option.Rel _ (Parse.ofOutcome o).cancelled (Parse.ofOutcome o').cancelled :=
      ho.cancelled?
    generalize (Parse.ofOutcome o).cancelled = i at hcancelled ⊢
    generalize (Parse.ofOutcome o').cancelled = j at hcancelled ⊢
    cases hcancelled with
    | none => exact .inl ⟨rfl, rfl⟩
    | some hij =>
        obtain ⟨t, t', ⟨k, ht, ht'⟩, rfl, rfl⟩ := hij
        exact .inr ⟨k, t, t', ht, ht', rfl, rfl⟩
  tree := by
    have hbuilt := ho.state.built
    simp only [Parse.ofOutcome]
    generalize o.state.built = ts at hbuilt ⊢
    generalize o'.state.built = ts' at hbuilt ⊢
    cases hbuilt with
    | nil => rfl
    | cons ht _ =>
        refine congrArg some (render_of_alike (fun i j hij => ?_) ht)
        exact leafText_eq h h' hcontent rfl rfl hij
  events := by
    refine ho.state.reports.imp fun r r' hr => ?_
    exact ⟨hr.message_eq hcontent, hr.expected, by rw [hr.cause], hr.offending⟩

end Parses

theorem StartRule.program_guarded (rule : StartRule) : rule.program.guarded = true := by
  cases rule <;> rfl

/-- Blanks and comments do not change a parse: two texts whose significant tokens have the
same kinds and texts are parsed alike, if the mode that ignores spaces is set or the same
tokens are adjacent in both. -/
theorem parse_ignores_spacing (o : Options) (rule : StartRule) (d d' : Dialect)
    (text text' : String)
    (hcontent : (significant (tokenize d text)).map Token.content =
      (significant (tokenize d' text')).map Token.content)
    (hspaced : o.mode.has .ignoreSpace = true ∨
      adjacencies (significant (tokenize d text)) =
        adjacencies (significant (tokenize d' text'))) :
    SameParse text text' (tokenize d text) (tokenize d' text')
      (parse o rule (tokenize d text)) (parse o rule (tokenize d' text')) := by
  have hc := twins_of_tokenize (o := o) hcontent hspaced
  have hfuel : fuelFor (tokenize d text) = fuelFor (tokenize d' text') := by
    rw [fuelFor, fuelFor, hc.length_eq]
  have hinitial : (State.initial (tokenize d text)).Parallel (significant (tokenize d text))
      (significant (tokenize d' text')) (State.initial (tokenize d' text')) :=
    ⟨⟨0, rfl, rfl⟩, rfl, .none, .nil, .nil⟩
  refine sameParse_of_parallel (tokenize_listed d text) (tokenize_listed d' text') hcontent ?_
  rw [outcomeOf, outcomeOf, outcomeIn, outcomeIn, hfuel]
  exact run_parallel hc grammar_guarded _ _ _ _ _ rule.program_guarded hinitial

/-- A comment and a line break move the missing parenthesis of `f(1`, which is reported
at the semicolon all the same. -/
theorem parse_ignores_spacing_comment :
    let options : Options := ⟨⟨80000⟩, .empty, .speculative, .recover⟩
    let dialect : Dialect := ⟨⟨80000⟩, .empty, []⟩
    let tight := "SELECT f(1 ;"
    let loose := "SELECT /* a */\n f(1 -- b\n;"
    (significant (tokenize dialect tight)).map Token.content =
        (significant (tokenize dialect loose)).map Token.content ∧
      adjacencies (significant (tokenize dialect tight)) =
        adjacencies (significant (tokenize dialect loose)) ∧
      SameParse tight loose (tokenize dialect tight) (tokenize dialect loose)
        (parse options .query (tokenize dialect tight))
        (parse options .query (tokenize dialect loose)) := by
  intro options dialect tight loose
  have hcontent : (significant (tokenize dialect tight)).map Token.content =
      (significant (tokenize dialect loose)).map Token.content := by
    decide +kernel
  have hadjacent : adjacencies (significant (tokenize dialect tight)) =
      adjacencies (significant (tokenize dialect loose)) := by
    decide +kernel
  exact ⟨hcontent, hadjacent,
    parse_ignores_spacing options .query dialect dialect tight loose hcontent (.inr hadjacent)⟩

end Grammar

end MySqlAnalysis
