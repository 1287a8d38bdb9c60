import MySqlAnalysis.Grammar.Machine

/-!
# What a decision reveals about the tokens ahead

A look or a test that was answered reveals something about the kinds of the
tokens ahead. A fact says of one of them whether its kind is in a list;
`Look.facts` and `Test.facts` collect the facts that an answer reveals
(`Look.facts_hold`, `Test.facts_hold`). Facts can rule out a kind at a place,
and facts that contradict each other show that a place in a program is never
reached.
-/

set_option autoImplicit false

namespace MySqlAnalysis.Grammar

/-- Whether the kind of a token ahead is in a list. -/
structure Fact where
  ahead : Nat
  member : Bool
  kinds : List TokenKind
  deriving DecidableEq

/-- The fact is true of the tokens ahead. -/
def Fact.Holds (c : Context) (tokens : List Token) (f : Fact) : Prop :=
  f.kinds.contains (c.kindAt tokens f.ahead) = f.member

/-- Facts about the tokens ahead. -/
abbrev Facts := List Fact

namespace Facts

/-- All facts are true of the tokens ahead. -/
def Hold (c : Context) (tokens : List Token) (k : Facts) : Prop :=
  ∀ f ∈ k, f.Holds c tokens

/-- Whether the facts exclude that a token ahead has the kind. -/
def rulesOut (k : Facts) (ahead : Nat) (kind : TokenKind) : Bool :=
  k.any fun f => f.ahead == ahead && f.kinds.contains kind != f.member

/-- Whether the facts exclude every kind that one of them allows. -/
def impossible (k : Facts) : Bool :=
  k.any fun f => f.member && f.kinds.all (k.rulesOut f.ahead)

/-- The facts after the next token was read. -/
def shift (k : Facts) : Facts :=
  k.filterMap fun f =>
    match f.ahead with
    | 0 => none
    | ahead + 1 => some { f with ahead }

/-- What remains of two facts about one token when only one of them is true. -/
def weaken (f g : Fact) : Option Fact :=
  if f.ahead = g.ahead then
    match f.member, g.member with
    | true, true => some { f with kinds := f.kinds ++ g.kinds }
    | false, false => some { f with kinds := f.kinds.filter g.kinds.contains }
    | true, false => some { g with kinds := g.kinds.filter fun kind => !f.kinds.contains kind }
    | false, true => some { f with kinds := f.kinds.filter fun kind => !g.kinds.contains kind }
  else none

/-- What is true when the facts of one side are. -/
def either (a b : Facts) : Facts :=
  a.flatMap fun f => b.filterMap (weaken f)

variable {c : Context} {tokens : List Token}

@[simp] theorem hold_nil : Hold c tokens [] := fun _ hf => absurd hf List.not_mem_nil

theorem hold_append {a b : Facts} : Hold c tokens (a ++ b) ↔ Hold c tokens a ∧ Hold c tokens b :=
  List.forall_mem_append

theorem hold_singleton {f : Fact} : Hold c tokens [f] ↔ f.Holds c tokens :=
  List.forall_mem_singleton

theorem Hold.mono {a b : Facts} (h : Hold c tokens b) (hab : a ⊆ b) : Hold c tokens a :=
  fun f hf => h f (hab hf)

theorem kindAt_ne_of_rulesOut {k : Facts} (hk : Hold c tokens k) {ahead : Nat} {kind : TokenKind}
    (h : k.rulesOut ahead kind = true) : c.kindAt tokens ahead ≠ kind := by
  intro he
  obtain ⟨f, hf, hout⟩ := List.any_eq_true.1 h
  simp only [Bool.and_eq_true, beq_iff_eq, bne_iff_ne] at hout
  apply hout.2
  rw [← he, ← hout.1]
  exact hk f hf

theorem not_hold_of_impossible {k : Facts} (h : k.impossible = true) : ¬ Hold c tokens k := by
  intro hk
  obtain ⟨f, hf, himp⟩ := List.any_eq_true.1 h
  simp only [Bool.and_eq_true, List.all_eq_true] at himp
  have hmem : c.kindAt tokens f.ahead ∈ f.kinds := by
    have hf' : f.kinds.contains (c.kindAt tokens f.ahead) = f.member := hk f hf
    rwa [himp.1, List.contains_iff_mem] at hf'
  exact kindAt_ne_of_rulesOut hk (himp.2 _ hmem) rfl

theorem kindAt_tail (c : Context) (tokens : List Token) (ahead : Nat) :
    c.kindAt tokens.tail ahead = c.kindAt tokens (ahead + 1) := by
  cases tokens with
  | nil => rfl
  | cons t ts => rfl

theorem Hold.shift {k : Facts} (hk : Hold c tokens k) : Hold c tokens.tail k.shift := by
  intro g hg
  obtain ⟨f, hf, hfg⟩ := List.mem_filterMap.1 hg
  have hf' : f.Holds c tokens := hk f hf
  rcases f with ⟨ahead, member, kinds⟩
  cases ahead with
  | zero => cases hfg
  | succ ahead =>
      cases hfg
      rw [Fact.Holds, kindAt_tail]
      exact hf'

theorem weaken_holds {f g h : Fact} (hfg : weaken f g = some h)
    (hor : f.Holds c tokens ∨ g.Holds c tokens) : h.Holds c tokens := by
  rcases f with ⟨ahead, fm, fk⟩
  rcases g with ⟨ahead', gm, gk⟩
  unfold weaken at hfg
  split at hfg
  case isTrue ha =>
    cases ha
    simp only [Fact.Holds] at hor
    -- either fact bounds the kind, so the union, intersection or difference does
    cases fm <;> cases gm <;> cases hfg <;> simp only [Fact.Holds] <;> grind
  case isFalse => cases hfg

theorem hold_either {a b : Facts} (h : Hold c tokens a ∨ Hold c tokens b) :
    Hold c tokens (either a b) := by
  intro x hx
  obtain ⟨f, hf, hx⟩ := List.mem_flatMap.1 hx
  obtain ⟨g, hg, hx⟩ := List.mem_filterMap.1 hx
  exact weaken_holds hx (h.imp (· f hf) (· g hg))

end Facts

/-! ### Facts from answers -/

/-- The kinds that no name and no keyword has. -/
def boundaryKinds : List TokenKind := [.eof, .semicolon]

/-- What an answer to a look reveals. -/
def Look.facts : Look → (answer : Bool) → Facts
  | .among ahead kinds, answer => [⟨ahead, answer, kinds⟩]
  | .keyword ahead, true => [⟨ahead, false, boundaryKinds⟩]
  | .name ahead, true => [⟨ahead, false, boundaryKinds⟩]
  | .both a b, true => a.facts true ++ b.facts true
  | .both a b, false => .either (a.facts false) (b.facts false)
  | .either a b, true => .either (a.facts true) (b.facts true)
  | .either a b, false => a.facts false ++ b.facts false
  | .not a, answer => a.facts (!answer)
  | _, _ => []

/-- What an answer to a test reveals. -/
def Test.facts : Test → (answer : Bool) → Facts
  | .look l, answer => l.facts answer
  | .next kinds, answer => [⟨0, answer, kinds⟩]
  | .nextName, true => [⟨0, false, boundaryKinds⟩]
  | .nextText, answer => [⟨0, answer, [.singleQuoted, .doubleQuoted]⟩]
  | .both a b, true => a.facts true ++ b.facts true
  | .both a b, false => .either (a.facts false) (b.facts false)
  | .either a b, true => .either (a.facts true) (b.facts true)
  | .either a b, false => a.facts false ++ b.facts false
  | .not a, answer => a.facts (!answer)
  | _, _ => []

theorem boundaryKinds_of_keyword {kind : TokenKind} (h : kind.keyword?.isSome = true) :
    boundaryKinds.contains kind = false := by
  cases kind with
  | keyword k => rfl
  | _ => cases h

theorem boundaryKinds_of_isName {kind : TokenKind} {f : Family} (h : kind.isName f = true) :
    boundaryKinds.contains kind = false := by
  cases kind with
  | keyword k => rfl
  | identifier => rfl
  | quotedIdentifier => rfl
  | _ => cases h

variable {c : Context} {tokens : List Token}

theorem Look.facts_hold (l : Look) :
    ∀ answer, l.holds c tokens = answer → (l.facts answer).Hold c tokens := by
  induction l with
  | among ahead kinds => exact fun answer h => Facts.hold_singleton.2 h
  | keyword ahead =>
      rintro (_ | _) h
      · exact Facts.hold_nil
      · exact Facts.hold_singleton.2 (boundaryKinds_of_keyword h)
  | name ahead =>
      rintro (_ | _) h
      · exact Facts.hold_nil
      · exact Facts.hold_singleton.2 (boundaryKinds_of_isName h)
  | both a b iha ihb =>
      rintro (_ | _) h
      · rw [holds, Bool.and_eq_false_iff] at h
        exact Facts.hold_either (h.imp (iha false) (ihb false))
      · rw [holds, Bool.and_eq_true] at h
        exact Facts.hold_append.2 ⟨iha true h.1, ihb true h.2⟩
  | either a b iha ihb =>
      rintro (_ | _) h
      · rw [holds, Bool.or_eq_false_iff] at h
        exact Facts.hold_append.2 ⟨iha false h.1, ihb false h.2⟩
      · rw [holds, Bool.or_eq_true] at h
        exact Facts.hold_either (h.imp (iha true) (ihb true))
  | not a ih =>
      intro answer h
      refine ih (!answer) ?_
      rw [← h, holds, Bool.not_not]
  | _ => exact fun _ _ => Facts.hold_nil

theorem Test.facts_hold (t : Test) :
    ∀ expected answer, (t.eval c tokens expected).1 = answer →
      (t.facts answer).Hold c tokens := by
  induction t with
  | look l => exact fun expected answer h => l.facts_hold answer h
  | next kinds => exact fun expected answer h => Facts.hold_singleton.2 h
  | nextName =>
      rintro expected (_ | _) h
      · exact Facts.hold_nil
      · exact Facts.hold_singleton.2 (boundaryKinds_of_isName h)
  | nextText =>
      intro expected answer h
      refine Facts.hold_singleton.2 ?_
      rw [← h]
      simp [Fact.Holds, eval, Bool.beq_eq_decide_eq]
  | both a b iha ihb =>
      intro expected answer h
      rw [eval] at h
      -- the second test is only evaluated when the first one holds
      split at h
      case h_1 expected' ha =>
        have hta : (a.facts true).Hold c tokens := iha expected true (by rw [ha])
        cases answer with
        | false => exact Facts.hold_either (.inr (ihb expected' false h))
        | true => exact Facts.hold_append.2 ⟨hta, ihb expected' true h⟩
      case h_2 expected' ha =>
        cases h
        exact Facts.hold_either (.inl (iha expected false (by rw [ha])))
  | either a b iha ihb =>
      intro expected answer h
      rw [eval] at h
      -- the second test is only evaluated when the first one fails
      split at h
      case h_1 expected' ha =>
        cases h
        exact Facts.hold_either (.inl (iha expected true (by rw [ha])))
      case h_2 expected' ha =>
        have hfa : (a.facts false).Hold c tokens := iha expected false (by rw [ha])
        cases answer with
        | false => exact Facts.hold_append.2 ⟨hfa, ihb expected' false h⟩
        | true => exact Facts.hold_either (.inr (ihb expected' true h))
  | not a ih =>
      intro expected answer h
      refine ih expected (!answer) ?_
      rw [← h, eval, Bool.not_not]

end MySqlAnalysis.Grammar
