import MySqlAnalysis.Proofs.Grammar.Acceptance

/-!
# Queries close the parentheses that they open

`Program.descent` follows a program through the depth of parentheses: a token that is
read is known to be no parenthesis, or known to be one, by the decisions in front of
it, the two sides of a decision end at the same depth, and a loop returns to the depth
of its rounds. The depth that is found is that of the tokens that a run reads into its
leaves (`Evaluates.covers`). Where it is not sure, the run may have ended with the
statement in the middle of a group; the next token that is read makes it sure again.

The phrases of queries, changes and expressions pass this check (`groupOf_checked`), so
what they read is balanced: between the parentheses of a query every group is closed
(`Accepts.stretch`).
-/

set_option autoImplicit false

namespace MySqlAnalysis.Grammar

/-! ### Depths of tokens -/

/-- The kinds that open or close a group or end a statement. -/
def groupKinds : List TokenKind := [.openParen, .closeParen, .eof, .semicolon]

/-- The depth of parentheses after a token, which is not the end of a statement. A group
is only closed where one is open. -/
def deepen (depth : Nat) : TokenKind → Option Nat
  | .openParen => some (depth + 1)
  | .closeParen => if depth = 0 then none else some (depth - 1)
  | .eof => none
  | .semicolon => none
  | _ => some depth

/-- The depth of parentheses after tokens. -/
def depthAfter (depth : Nat) (tokens : List Token) : Option Nat :=
  tokens.foldlM (fun depth t => deepen depth t.kind) depth

theorem deepen_of_not_mem {kind : TokenKind} (h : groupKinds.contains kind = false) (depth : Nat) :
    deepen depth kind = some depth := by
  cases kind <;> first | rfl | cases h

theorem deepen_boundary {depth depth' : Nat} {kind : TokenKind}
    (h : deepen depth kind = some depth') : boundaryKinds.contains kind = false := by
  cases kind <;> first | rfl | cases h

/-- More groups may be open around the tokens. -/
theorem deepen_add {depth depth' : Nat} {kind : TokenKind} (h : deepen depth kind = some depth')
    (n : Nat) : deepen (depth + n) kind = some (depth' + n) := by
  cases kind with
  | openParen =>
      cases h
      rw [deepen, Nat.add_right_comm]
  | closeParen =>
      rw [deepen] at h ⊢
      split at h
      case isTrue => cases h
      case isFalse hne =>
        cases h
        rw [if_neg (by omega)]
        congr 1
        omega
  | eof => cases h
  | semicolon => cases h
  | _ =>
      cases h
      rfl

theorem depthAfter_append {depth depth' : Nat} {ts : List Token}
    (h : depthAfter depth ts = some depth') (ts' : List Token) :
    depthAfter depth (ts ++ ts') = depthAfter depth' ts' := by
  have h' : ts.foldlM (fun depth t => deepen depth t.kind) depth = some depth' := h
  rw [depthAfter, List.foldlM_append, h']
  rfl

theorem depthAfter_add (ts : List Token) (n : Nat) :
    ∀ {depth depth' : Nat}, depthAfter depth ts = some depth' →
      depthAfter (depth + n) ts = some (depth' + n) := by
  induction ts with
  | nil =>
      rintro depth _ ⟨⟩
      rfl
  | cons t ts ih =>
      intro depth depth' h
      simp only [depthAfter, List.foldlM_cons, Option.bind_eq_bind, Option.bind_eq_some_iff] at h ⊢
      obtain ⟨next, hnext, h⟩ := h
      exact ⟨next + n, deepen_add hnext n, ih h⟩

/-! ### Stretches between two places -/

section Stretches

variable {c : Context} {a b e : List Token} {d d' d'' : Nat}

/-- A statement ends in front of these tokens. -/
def AtBoundary (c : Context) (ahead : List Token) : Prop :=
  boundaryKinds.contains (c.kindAt ahead 0) = true

/-- Between two places lies no end of a statement, and the tokens there lead from one depth
to another. Unless this is sure, a statement may end at the second place instead. -/
def Stretch (c : Context) (sure : Bool) (d d' : Nat) (a b : List Token) : Prop :=
  ∃ read, a = read ++ b ∧ (∀ t ∈ read, boundaryKinds.contains t.kind = false) ∧
    (sure = false ∧ AtBoundary c b ∨ depthAfter d read = some d')

namespace Stretch

variable {sure sure' : Bool}

theorem refl (c : Context) (sure : Bool) (d : Nat) (a : List Token) : Stretch c sure d d a a :=
  ⟨[], rfl, by simp, .inr rfl⟩

theorem mono (h : Stretch c sure d d' a b) (hsure : sure' = true → sure = true) :
    Stretch c sure' d d' a b := by
  obtain ⟨read, hahead, hread, hend⟩ := h
  refine ⟨read, hahead, hread, hend.imp_left fun hboundary => ⟨?_, hboundary.2⟩⟩
  rw [Bool.eq_false_iff]
  intro htrue
  exact absurd (hsure htrue) (by simp [hboundary.1])

/-- A token that was read shows that no statement ended in front of it. -/
theorem concat {t : Token} (h : Stretch c sure d d' a (t :: b))
    (ht : deepen d' t.kind = some d'') : Stretch c true d d'' a b := by
  obtain ⟨read, rfl, hread, hend⟩ := h
  have hkind := deepen_boundary ht
  have hdepth : depthAfter d read = some d' := by
    refine hend.resolve_left fun hboundary => ?_
    exact absurd (hboundary.2.symm.trans hkind) (by simp)
  refine ⟨read ++ [t], by simp, ?_, .inr ?_⟩
  · exact List.forall_mem_append.2 ⟨hread, List.forall_mem_singleton.2 hkind⟩
  · rw [depthAfter_append hdepth]
    simp [depthAfter, ht]

/-- Nothing lies behind the end of a statement. -/
theorem eq_of_atBoundary (h : Stretch c sure d d' a b) (ha : AtBoundary c a) : b = a := by
  obtain ⟨read, rfl, hread, -⟩ := h
  cases read with
  | nil => rfl
  | cons t ts =>
      have ht : boundaryKinds.contains t.kind = false := hread t List.mem_cons_self
      rw [AtBoundary, List.cons_append] at ha
      exact absurd (ha.symm.trans ht) (by simp)

theorem trans (h : Stretch c sure d d' a b) (h' : Stretch c sure' d' d'' b e) :
    Stretch c (sure && sure') d d'' a e := by
  obtain ⟨read, rfl, hread, hend⟩ := h
  rcases hend with ⟨rfl, hb⟩ | hdepth
  · rw [h'.eq_of_atBoundary hb]
    exact ⟨read, rfl, hread, .inl ⟨rfl, hb⟩⟩
  obtain ⟨read', rfl, hread', hend'⟩ := h'
  refine ⟨read ++ read', (List.append_assoc _ _ _).symm, ?_, ?_⟩
  · exact List.forall_mem_append.2 ⟨hread, hread'⟩
  · rcases hend' with ⟨rfl, he⟩ | hdepth'
    · exact .inl ⟨Bool.and_false _, he⟩
    · right
      rw [depthAfter_append hdepth, hdepth']

theorem add (h : Stretch c sure d d' a b) (n : Nat) : Stretch c sure (d + n) (d' + n) a b := by
  obtain ⟨read, rfl, hread, hend⟩ := h
  exact ⟨read, rfl, hread, hend.imp_right fun hdepth => depthAfter_add read n hdepth⟩

/-- At the end of a statement the depth does not matter. -/
theorem of_atBoundary (h : Stretch c sure d d' a b) (hb : AtBoundary c b) (n : Nat) :
    Stretch c false d n a b := by
  obtain ⟨read, hahead, hread, -⟩ := h
  exact ⟨read, hahead, hread, .inl ⟨rfl, hb⟩⟩

end Stretch

end Stretches

/-! ### What decisions tell about parentheses -/

/-- The tokens ahead that are names or keywords when a look holds. -/
def Look.names : Look → List Nat
  | .keyword n => [n]
  | .name n => [n]
  | .both a b => a.names ++ b.names
  | .either a b => a.names.filter b.names.contains
  | _ => []

/-- The tokens ahead that are names or keywords when a test holds. -/
def Test.names : Test → List Nat
  | .look l => l.names
  | .nextName => [0]
  | .both a b => a.names ++ b.names
  | .either a b => a.names.filter b.names.contains
  | _ => []

/-- What an answer reveals, names and keywords being no parentheses. -/
def Test.known (t : Test) : (answer : Bool) → Facts
  | true => t.facts true ++ t.names.map (⟨·, false, groupKinds⟩)
  | false => t.facts false

namespace Facts

/-- Whether the next token is no parenthesis and does not end a statement. -/
def plain (k : Facts) : Bool := groupKinds.all (k.rulesOut 0)

/-- Whether the next token has one of these kinds. -/
def within (k : Facts) (kinds : List TokenKind) : Bool :=
  k.any fun f => f.ahead == 0 && f.member && f.kinds.all kinds.contains

/-- The depth after the next token, if the facts tell it. -/
def deepen (k : Facts) (depth : Nat) : Option Nat :=
  if k.plain then some depth
  else if k.within [.openParen] then Grammar.deepen depth .openParen
  else if k.within [.closeParen] then Grammar.deepen depth .closeParen
  else none

end Facts

section Known

variable {c : Context} {ahead : List Token}

theorem groupKinds_of_keyword {kind : TokenKind} (h : kind.keyword?.isSome = true) :
    groupKinds.contains kind = false := by
  cases kind with
  | keyword k => rfl
  | _ => cases h

theorem groupKinds_of_isName {kind : TokenKind} {f : Family} (h : kind.isName f = true) :
    groupKinds.contains kind = false := by
  cases kind with
  | keyword k => rfl
  | identifier => rfl
  | quotedIdentifier => rfl
  | _ => cases h

theorem Look.names_hold (l : Look) :
    l.holds c ahead = true → ∀ n ∈ l.names, groupKinds.contains (c.kindAt ahead n) = false := by
  induction l with
  | keyword n =>
      intro h
      exact List.forall_mem_singleton.2 (groupKinds_of_keyword h)
  | name n =>
      intro h
      exact List.forall_mem_singleton.2 (groupKinds_of_isName h)
  | both a b iha ihb =>
      intro h
      obtain ⟨ha, hb⟩ := Bool.and_eq_true_iff.1 h
      exact List.forall_mem_append.2 ⟨iha ha, ihb hb⟩
  | either a b iha ihb =>
      intro h n hn
      obtain ⟨hna, hnb⟩ := List.mem_filter.1 hn
      rcases Bool.or_eq_true_iff.1 h with ha | hb
      · exact iha ha n hna
      · exact ihb hb n (List.contains_iff_mem.1 hnb)
  | _ => exact fun _ n hn => absurd hn List.not_mem_nil

theorem Test.names_hold (t : Test) :
    ∀ expected, (t.eval c ahead expected).1 = true →
      ∀ n ∈ t.names, groupKinds.contains (c.kindAt ahead n) = false := by
  induction t with
  | look l => exact fun _ h => l.names_hold h
  | nextName => exact fun _ h => List.forall_mem_singleton.2 (groupKinds_of_isName h)
  | both a b iha ihb =>
      intro expected h
      rw [eval] at h
      split at h
      case h_1 expected' heval =>
        exact List.forall_mem_append.2 ⟨iha expected (by rw [heval]), ihb expected' h⟩
      case h_2 => cases h
  | either a b iha ihb =>
      intro expected h n hn
      obtain ⟨hna, hnb⟩ := List.mem_filter.1 hn
      rw [eval] at h
      split at h
      case h_1 expected' heval => exact iha expected (by rw [heval]) n hna
      case h_2 expected' heval => exact ihb expected' h n (List.contains_iff_mem.1 hnb)
  | _ => exact fun _ _ n hn => absurd hn List.not_mem_nil

theorem Test.known_hold (t : Test) {expected expected' : List TokenKind} {answer : Bool}
    (h : t.eval c ahead expected = (answer, expected')) : (t.known answer).Hold c ahead := by
  have hanswer : (t.eval c ahead expected).1 = answer := congrArg Prod.fst h
  cases answer with
  | false => exact t.facts_hold expected false hanswer
  | true =>
      refine Facts.hold_append.2 ⟨t.facts_hold expected true hanswer, ?_⟩
      intro f hf
      obtain ⟨n, hn, rfl⟩ := List.mem_map.1 hf
      exact t.names_hold expected hanswer n hn

theorem Facts.plain_hold {k : Facts} (hk : k.Hold c ahead) (h : k.plain = true) :
    groupKinds.contains (c.kindAt ahead 0) = false := by
  rw [← Bool.not_eq_true]
  intro hmem
  have hall := List.all_eq_true.1 h _ (List.contains_iff_mem.1 hmem)
  exact kindAt_ne_of_rulesOut hk hall rfl

theorem Facts.within_hold {k : Facts} (hk : k.Hold c ahead) {kinds : List TokenKind}
    (h : k.within kinds = true) : c.kindAt ahead 0 ∈ kinds := by
  obtain ⟨f, hf, hwithin⟩ := List.any_eq_true.1 h
  simp only [Bool.and_eq_true, beq_iff_eq, List.all_eq_true] at hwithin
  obtain ⟨⟨hahead, hmember⟩, hkinds⟩ := hwithin
  have hholds : f.kinds.contains (c.kindAt ahead f.ahead) = f.member := hk f hf
  rw [hahead, hmember, List.contains_iff_mem] at hholds
  exact List.contains_iff_mem.1 (hkinds _ hholds)

theorem Facts.deepen_hold {k : Facts} (hk : k.Hold c ahead) {depth depth' : Nat}
    (h : k.deepen depth = some depth') :
    Grammar.deepen depth (c.kindAt ahead 0) = some depth' := by
  unfold Facts.deepen at h
  split at h
  case isTrue hplain =>
    cases h
    exact deepen_of_not_mem (plain_hold hk hplain) depth
  case isFalse =>
    split at h
    case isTrue hopen => rwa [List.mem_singleton.1 (within_hold hk hopen)]
    case isFalse =>
      split at h
      case isTrue hclose => rwa [List.mem_singleton.1 (within_hold hk hclose)]
      case isFalse => cases h

end Known

/-! ### Following a program -/

/-- What a phrase needs and does: the number of groups that it closes beyond those that it
opens, whether its first token has to be no parenthesis, and whether it is sure to close the
groups when it finishes. -/
structure Group where
  depth : Nat
  plain : Bool
  sure : Bool

/-- The facts that a phrase starts with. -/
def Group.facts (g : Group) : Facts :=
  if g.plain then [⟨0, false, groupKinds⟩] else []

/-- What is known of the depth after a program. Unless the depth is sure, a statement may
have ended instead. -/
inductive Descent where
  | unknown
  /-- The program does not finish. -/
  | never
  | at (known : Facts) (depth : Nat) (sure : Bool)
  deriving DecidableEq

namespace Descent

/-- Goes on where a program finished. -/
def andThen : Descent → (Facts → Nat → Bool → Descent) → Descent
  | unknown, _ => unknown
  | never, _ => never
  | .at k d sure, f => f k d sure

/-- What is known when one of two programs was run. -/
def join : Descent → Descent → Descent
  | never, l => l
  | l, never => l
  | .at _ d sure, .at _ d' sure' => if d = d' then .at [] d (sure && sure') else unknown
  | _, _ => unknown

/-- What is known when the first program is only run at the end of a statement, where
it reads nothing. -/
def atEnd : Descent → Descent → Descent
  | unknown, _ => unknown
  | _, .at _ d _ => .at [] d false
  | _, _ => unknown

/-- What is known after rounds of a program that start and end at one depth. -/
def rounds (known : Facts) (d : Nat) (sure : Bool) : Descent → Descent
  | unknown => unknown
  | never => .at known d sure
  | .at _ d' sure' => if d' = d ∧ (sure = true → sure' = true) then .at known d sure else unknown

/-- Whether a program closes all groups, and is sure to do so if asked. -/
def closes (sure : Bool) : Descent → Bool
  | .at _ d sure' => d == 0 && (!sure || sure')
  | never => true
  | unknown => false

/-- What is known after a program is true of two states that it was run between, when the
depths are counted from an earlier place on. -/
def Covers (c : Context) (d : Nat) (a : List Token) (s u : State (List Tree)) : Descent → Prop
  | unknown => True
  | never => False
  | .at k d' sure => k.Hold c u.ahead ∧ s.Reads u ∧ Stretch c sure d d' a u.ahead

namespace Covers

variable {c : Context} {d d₀ : Nat} {a : List Token} {s u v : State (List Tree)}
  {l l' : Descent} {sure : Bool}

theorem after (hreads : s.Reads v) (h : l.Covers c d a v u) : l.Covers c d a s u := by
  cases l with
  | unknown => trivial
  | never => exact h
  | «at» k n sure => exact ⟨h.1, hreads.trans h.2.1, h.2.2⟩

theorem andThen (h : l.Covers c d a s v) {f : Facts → Nat → Bool → Descent}
    (hf : ∀ k d' sure, k.Hold c v.ahead → Stretch c sure d d' a v.ahead →
      (f k d' sure).Covers c d a v u) : (l.andThen f).Covers c d a s u := by
  cases l with
  | unknown => trivial
  | never => exact h
  | «at» k n sure => exact (hf k n sure h.1 h.2.2).after h.2.1

/-- What a node leaves behind for what was read inside it. -/
theorem close {s' u' : State (List Tree)} (h : l.Covers c d a s' u')
    (hahead : u.ahead = u'.ahead) (hreads : s'.Reads u' → s.Reads u) : l.Covers c d a s u := by
  cases l with
  | unknown => trivial
  | never => exact h
  | «at» k n sure => exact ⟨hahead ▸ h.1, hreads h.2.1, hahead ▸ h.2.2⟩

theorem join_left (h : l.Covers c d a s u) : (l.join l').Covers c d a s u := by
  cases l with
  | unknown => cases l' <;> trivial
  | never => cases h
  | «at» k n sure =>
      cases l' with
      | unknown => trivial
      | never => exact h
      | «at» k' n' sure' =>
          rw [Descent.join]
          split
          case isTrue =>
            refine ⟨Facts.hold_nil, h.2.1, h.2.2.mono fun hboth => ?_⟩
            exact (Bool.and_eq_true_iff.1 hboth).1
          case isFalse => trivial

theorem join_right (h : l'.Covers c d a s u) : (l.join l').Covers c d a s u := by
  cases l' with
  | unknown => cases l <;> trivial
  | never => cases h
  | «at» k n sure =>
      cases l with
      | unknown => trivial
      | never => exact h
      | «at» k' n' sure' =>
          rw [Descent.join]
          split
          case isTrue heq =>
            refine ⟨Facts.hold_nil, h.2.1, ?_⟩
            rw [heq]
            exact h.2.2.mono fun hboth => (Bool.and_eq_true_iff.1 hboth).2
          case isFalse => trivial

theorem rounds_stop {known : Facts} (h : known.Hold c s.ahead)
    (hs : Stretch c sure d₀ d a s.ahead) : (l.rounds known d sure).Covers c d₀ a s s := by
  cases l with
  | unknown => trivial
  | never => exact ⟨h, .refl s, hs⟩
  | «at» k n sure' =>
      rw [Descent.rounds]
      split
      case isTrue => exact ⟨h, .refl s, hs⟩
      case isFalse => trivial

/-- After a first round the others go on from where it ended. -/
theorem rounds_next {known : Facts} (h : l.Covers c d₀ a s v)
    (h' : Stretch c sure d₀ d a v.ahead → (l.rounds known d sure).Covers c d₀ a v u) :
    (l.rounds known d sure).Covers c d₀ a s u := by
  cases l with
  | unknown => trivial
  | never => cases h
  | «at» k n sure' =>
      rw [Descent.rounds] at h' ⊢
      by_cases hsame : n = d ∧ (sure = true → sure' = true)
      · obtain ⟨rfl, hsure⟩ := hsame
        exact (h' (h.2.2.mono hsure)).after h.2.1
      · rw [if_neg hsame]
        trivial

/-- A program that is run at the end of a statement stays there. -/
theorem atEnd_left (h : l.Covers c d s.ahead s u) (hend : AtBoundary c s.ahead)
    (hs : Stretch c sure d₀ d a s.ahead) : (l.atEnd l').Covers c d₀ a s u := by
  cases l with
  | unknown => trivial
  | never => cases h
  | «at» k n sure' =>
      cases l' with
      | «at» k' n' _ =>
          have hsame : u.ahead = s.ahead := h.2.2.eq_of_atBoundary hend
          refine ⟨Facts.hold_nil, h.2.1, ?_⟩
          rw [hsame]
          exact hs.of_atBoundary hend n'
      | _ => trivial

theorem atEnd_right (h : l'.Covers c d a s u) : (l.atEnd l').Covers c d a s u := by
  cases l with
  | unknown => trivial
  | _ =>
      cases l' with
      | «at» k' n' sure' => exact ⟨Facts.hold_nil, h.2.1, h.2.2.mono nofun⟩
      | _ => trivial

/-- A program that closes all groups leads back to no depth. -/
theorem of_closes (hl : l.closes sure = true) (h : l.Covers c d a s u) :
    s.Reads u ∧ Stretch c sure d 0 a u.ahead := by
  cases l with
  | unknown => cases hl
  | never => cases h
  | «at» k n sure' =>
      obtain ⟨hdepth, hsure⟩ := Bool.and_eq_true_iff.1 hl
      rw [beq_iff_eq] at hdepth
      subst hdepth
      exact ⟨h.2.1, h.2.2.mono fun htrue => by simpa [htrue] using hsure⟩

end Covers

end Descent

namespace Program

variable {φ : Type}

/-- What is known of the depth after a program that starts with the facts at a depth, which
is sure or not, `groups` telling what phrases need. Where a test only holds at the end of a
statement, the other alternative counts. -/
def descent (groups : φ → Option Group) : Program φ → Facts → Nat → Bool → Descent
  | done, k, d, sure => .at k d sure
  | advance, k, d, _ =>
    match k.deepen d with
    | some d' => .at k.shift d' true
    | none => .unknown
  | expect kind, k, d, _ =>
    match Grammar.deepen d kind with
    | some d' => .at k.shift d' true
    | none => .unknown
  | refuse _, _, _, _ => .never
  | seq p q, k, d, sure => (p.descent groups k d sure).andThen (q.descent groups)
  | cond t p q, k, d, sure =>
    let yes := p.descent groups (t.known true ++ k) d sure
    let no := q.descent groups (t.known false ++ k) d sure
    if (t.known true).within boundaryKinds then yes.atEnd no else yes.join no
  | loop t p, _, d, sure =>
    (p.descent groups (t.known true) d sure).rounds (t.known false) d sure
  | node _ p, k, d, sure => p.descent groups k d sure
  | wrap _ p, k, d, sure => p.descent groups k d sure
  | attempt p q, k, d, sure => (p.descent groups k d sure).join (q.descent groups k d sure)
  | resume _, _, _, _ => .unknown
  | call phrase, k, d, sure =>
    match groups phrase with
    | some g =>
      if g.depth ≤ d && (!g.plain || k.plain) then .at [] (d - g.depth) (sure && g.sure)
      else .unknown
    | none => .unknown

end Program

/-- What the phrases of queries, changes and expressions need. The frame of a window may end
with the statement. -/
def groupOf : Phrase → Option Group
  | .frame depth => some ⟨depth, false, false⟩
  | .sumExpr => some ⟨0, true, true⟩
  | .expr _ => some ⟨0, false, true⟩
  | .bitExpr _ => some ⟨0, false, true⟩
  | .exprIs => some ⟨0, false, true⟩
  | .predicate => some ⟨0, false, true⟩
  | .simpleExpr => some ⟨0, false, true⟩
  | .operand => some ⟨0, false, true⟩
  | .exprList => some ⟨0, false, true⟩
  | .literal => some ⟨0, false, true⟩
  | .functionCall => some ⟨0, false, true⟩
  | .queryExpression => some ⟨0, false, true⟩
  | .querySpecification => some ⟨0, false, true⟩
  | .queryParens => some ⟨0, false, true⟩
  | .subquery => some ⟨0, false, true⟩
  | .selectItem => some ⟨0, false, true⟩
  | .orderClause => some ⟨0, false, true⟩
  | .lockingClauses => some ⟨0, false, true⟩
  | .tableReferenceList => some ⟨0, false, true⟩
  | .tableFactor => some ⟨0, false, true⟩
  | .derivedTable => some ⟨0, false, true⟩
  | .updateList => some ⟨0, false, true⟩
  | .insertSource => some ⟨0, false, true⟩
  | _ => none

theorem exprBody_closes (power : Nat) :
    ((exprBody power).descent groupOf [] 0 true).closes true = true :=
  exprBody_of_lt (P := fun p => (p.descent groupOf [] 0 true).closes true = true) (by decide) power

theorem bitExprBody_closes (power : Nat) :
    ((bitExprBody power).descent groupOf [] 0 true).closes true = true :=
  bitExprBody_of_lt (P := fun p => (p.descent groupOf [] 0 true).closes true = true) (by decide)
    power

theorem frameBody_closes (depth : Nat) :
    ((frameBody depth).descent groupOf [] depth true).closes false = true := by
  cases depth with
  | zero => rfl
  | succ depth =>
      simp [frameBody, Program.choose, Program.steps, Program.descent, Descent.andThen,
        Descent.join, Descent.atEnd, Descent.closes, groupOf, Test.known, Test.facts, Test.names,
        Look.facts, Look.names, Look.atStatementEnd, Look.is, Facts.deepen, Facts.plain,
        Facts.within, Facts.rulesOut, groupKinds, boundaryKinds, deepen]

/-- The phrases of queries, changes and expressions close the groups that they open. -/
theorem groupOf_checked (phrase : Phrase) {g : Group} (h : groupOf phrase = some g) :
    ((grammar phrase).descent groupOf g.facts g.depth true).closes g.sure = true := by
  cases phrase with
  | expr power =>
      cases h
      exact exprBody_closes power
  | bitExpr power =>
      cases h
      exact bitExprBody_closes power
  | frame depth =>
      cases h
      exact frameBody_closes depth
  | _ => cases h <;> rfl

/-! ### Following a run -/

section Runs

variable {c : Context} {r : Reaction}

theorem Group.facts_hold {g : Group} {k : Facts} {ahead : List Token} (hk : k.Hold c ahead)
    (h : (!g.plain || k.plain) = true) : g.facts.Hold c ahead := by
  unfold Group.facts
  split
  case isTrue hplain =>
    rw [hplain] at h
    exact Facts.hold_singleton.2 (Facts.plain_hold hk h)
  case isFalse => exact Facts.hold_nil

section Moves

variable {d₀ d : Nat} {a : List Token} {s u : State (List Tree)} {k : Facts} {sure : Bool}

/-- A token is read whose kind is known well enough to tell the depth after it. -/
theorem covers_advance (hc : c.ending.isEof = true) (hk : k.Hold c s.ahead)
    (hs : Stretch c sure d₀ d a s.ahead) :
    ((Program.advance (φ := Phrase)).descent groupOf k d sure).Covers c d₀ a s (s.consume c) := by
  rw [Program.descent]
  split
  case h_2 => trivial
  case h_1 d' hd =>
    have hdeepen := Facts.deepen_hold hk hd
    have hne : c.kindAt s.ahead 0 ≠ .eof := by
      intro heof
      rw [heof] at hdeepen
      cases hdeepen
    obtain ⟨t, ts, hahead, ht⟩ := exists_cons_of_kindAt (beq_iff_eq.1 hc) hne rfl
    obtain ⟨hts, hreads⟩ := State.consume_reads (c := c) hahead
      (beq_eq_false_iff_ne.2 (ht ▸ hne))
    rw [hahead] at hs
    refine ⟨?_, hreads, ?_⟩
    · rw [consume_ahead hne]
      exact hk.shift
    · rw [hts]
      exact hs.concat (by rwa [ht])

/-- A required token that is found tells the depth by itself. -/
theorem covers_expect (hc : c.ending.isEof = true) (hr : r ≠ .recover) {kind : TokenKind}
    (hu : s.expect c r kind = .finished u) (hk : k.Hold c s.ahead)
    (hs : Stretch c sure d₀ d a s.ahead) :
    ((Program.expect (φ := Phrase) kind).descent groupOf k d sure).Covers c d₀ a s u := by
  rw [Program.descent]
  split
  case h_2 => trivial
  case h_1 d' hd =>
    have hkind : kind ≠ .eof := by
      rintro rfl
      cases hd
    obtain ⟨t, hahead, ht⟩ := expect_finished_cons hr (beq_iff_eq.1 hc) hkind hu
    have hreads : s.Reads u := by
      obtain ⟨-, rfl⟩ := expect_finished hr hu
      exact (State.consume_reads (s := { s with expected := _ }) hahead
        (beq_eq_false_iff_ne.2 (ht ▸ hkind))).2
    have htail : u.ahead = s.ahead.tail := by rw [hahead]; rfl
    rw [hahead] at hs
    exact ⟨htail ▸ hk.shift, hreads, hs.concat (by rwa [ht])⟩

/-- A phrase closes the groups that it needs. It counts from its own start, with the groups
around it left out. -/
theorem covers_call {phrase : Phrase}
    (hbody : ∀ g, groupOf phrase = some g → g.facts.Hold c s.ahead →
      ((grammar phrase).descent groupOf g.facts g.depth true).Covers c g.depth s.ahead s u)
    (hk : k.Hold c s.ahead) (hs : Stretch c sure d₀ d a s.ahead) :
    ((Program.call phrase).descent groupOf k d sure).Covers c d₀ a s u := by
  rw [Program.descent]
  cases hg : groupOf phrase with
  | none => trivial
  | some g =>
      dsimp only
      split
      case isFalse => trivial
      case isTrue hready =>
        obtain ⟨hle, hplain⟩ := Bool.and_eq_true_iff.1 hready
        obtain ⟨hreads, hphrase⟩ :=
          (hbody g hg (Group.facts_hold hk hplain)).of_closes (groupOf_checked phrase hg)
        have hshift := hphrase.add (d - g.depth)
        rw [Nat.add_sub_cancel' (of_decide_eq_true hle), Nat.zero_add] at hshift
        exact ⟨Facts.hold_nil, hreads, hs.trans hshift⟩

end Moves

/-- What is found about a program is true of every run that finishes without recovering. -/
theorem Evaluates.covers (hc : c.ending.isEof = true) {p : Fragment} {s : State (List Tree)}
    {o : Outcome (List Tree)} (h : Evaluates c grammar r p s o) :
    p.halts = true → r ≠ .recover → ∀ u, o = .finished u → ∀ k d sure, k.Hold c s.ahead →
      ∀ d₀ a, Stretch c sure d₀ d a s.ahead →
        (p.descent groupOf k d sure).Covers c d₀ a s u := by
  induction h with
  | @done r s =>
      rintro - - _ ⟨⟩ k d sure hk d₀ a hs
      exact ⟨hk, .refl s, hs⟩
  | @advance r s =>
      rintro - - _ ⟨⟩ k d sure hk d₀ a hs
      exact covers_advance hc hk hs
  | @expect r s kind =>
      intro _ hr u hu k d sure hk d₀ a hs
      exact covers_expect hc hr hu hk hs
  | @refuse r s why =>
      intro _ _ u hu
      exact absurd hu (s.refuse_ne_finished c r why u)
  | seq _ _ ih ih' =>
      rintro hp hr u rfl k d sure hk d₀ a hs
      rw [Program.halts, Bool.and_eq_true] at hp
      exact (ih hp.1 hr _ rfl k d sure hk d₀ a hs).andThen fun k' d' sure' hk' hs' =>
        ih' hp.2 hr u rfl k' d' sure' hk' d₀ a hs'
  | seqAborted _ ih =>
      rintro _ _ u ⟨⟩
  | @condTrue r s t p q expected o ht _ ih =>
      rintro hp hr u rfl k d sure hk d₀ a hs
      rw [Program.halts, Bool.and_eq_true, Bool.and_eq_true] at hp
      have hknown := t.known_hold ((t.answers_iff hc _ _ _ hp.1.1).1 ht)
      have hyes := ih hp.1.2 hr u rfl _ d sure (Facts.hold_append.2 ⟨hknown, hk⟩)
      rw [Program.descent]
      split
      case isTrue hend =>
        have hstays := hyes d s.ahead (.refl c sure d _)
        exact hstays.atEnd_left (s := { s with expected })
          (List.contains_iff_mem.2 (Facts.within_hold hknown hend)) hs
      case isFalse => exact (hyes d₀ a hs).join_left
  | @condFalse r s t p q expected o ht _ ih =>
      rintro hp hr u rfl k d sure hk d₀ a hs
      rw [Program.halts, Bool.and_eq_true, Bool.and_eq_true] at hp
      have hknown := t.known_hold ((t.answers_iff hc _ _ _ hp.1.1).1 ht)
      have hno := ih hp.2 hr u rfl _ d sure (Facts.hold_append.2 ⟨hknown, hk⟩) d₀ a hs
      rw [Program.descent]
      split
      case isTrue => exact hno.atEnd_right
      case isFalse => exact hno.join_right
  | @loopStop r s t p expected ht =>
      rintro hp _ _ ⟨⟩ k d sure hk d₀ a hs
      have hknown := t.known_hold ((t.answers_iff hc _ _ _ (Bool.and_eq_true_iff.1 hp).1).1 ht)
      exact .rounds_stop (s := { s with expected }) hknown hs
  | @loopNext r s s' t p expected o ht _ _ ih ih' =>
      rintro hp hr u rfl k d sure hk d₀ a hs
      obtain ⟨hhalts, hbody⟩ := Bool.and_eq_true_iff.1 hp
      have hknown := t.known_hold ((t.answers_iff hc _ _ _ hhalts).1 ht)
      have hround := ih hbody hr _ rfl _ d sure hknown d₀ a hs
      exact hround.rounds_next fun hs' => ih' hp hr u rfl [] d sure Facts.hold_nil d₀ a hs'
  | loopAborted _ _ _ =>
      rintro _ _ u ⟨⟩
  | @node r s rule p o _ ih =>
      intro hp hr u hu k d sure hk d₀ a hs
      obtain ⟨v, rfl, rfl⟩ := Outcome.map_eq_finished hu
      exact (ih hp hr v rfl k d sure hk d₀ a hs).close rfl (.leave rule)
  | @wrap r s rule p o _ ih =>
      intro hp hr u hu k d sure hk d₀ a hs
      obtain ⟨v, rfl, rfl⟩ := Outcome.map_eq_finished hu
      exact (ih hp hr v rfl k d sure hk d₀ a hs).close rfl (.leaveAround rule)
  | attempt _ ih =>
      rintro hp _ u ⟨⟩ k d sure hk d₀ a hs
      rw [Program.halts, Bool.and_eq_true] at hp
      exact (ih hp.1 (by decide) _ rfl k d sure hk d₀ a hs).join_left
  | attemptUndone _ _ _ ih =>
      rintro hp hr u rfl k d sure hk d₀ a hs
      rw [Program.halts, Bool.and_eq_true] at hp
      exact (ih hp.2 hr u rfl k d sure hk d₀ a hs).join_right
  | resume _ _ _ => exact fun _ _ _ _ _ _ _ _ _ _ _ => trivial
  | resumeSkipped _ _ _ => exact fun _ _ _ _ _ _ _ _ _ _ _ => trivial
  | @call r s phrase o _ ih =>
      rintro _ hr u rfl k d sure hk d₀ a hs
      exact covers_call (fun g _ hfacts => ih (grammar_halts phrase) hr u rfl g.facts g.depth true
        hfacts g.depth s.ahead (.refl c true _ _)) hk hs

/-- An accepted program reads tokens that lead to the depth that was found. -/
theorem Accepts.stretch (hc : c.ending.isEof = true) {p : Fragment} (hp : p.halts = true)
    {s u : State (List Tree)} {k : Facts} {d d' : Nat} {sure : Bool} (h : Accepts c p s u)
    (hdepth : p.descent groupOf [] d true = .at k d' sure) :
    Stretch c sure d d' s.ahead u.ahead := by
  have hcovers := Evaluates.covers hc h hp (by decide) u rfl [] d true Facts.hold_nil d s.ahead
    (.refl c true d _)
  rw [hdepth] at hcovers
  exact hcovers.2.2

end Runs

end MySqlAnalysis.Grammar
