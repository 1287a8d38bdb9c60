import MySqlAnalysis.Grammar.Parse
import MySqlAnalysis.Proofs.Grammar.Reaction
import MySqlAnalysis.Proofs.Tree.Building

/-!
# Trees and arenas are built alike

A run does not depend on what it builds. Run with trees and with an arena, a
program comes to the same outcome, with the same tokens ahead and the same
reports, and the arena stores the trees (`run_within`). A start rule builds one
tree, and at the end of its run all nodes of the arena belong to that tree
(`outcomeIn_alike`).
-/

set_option autoImplicit false

namespace MySqlAnalysis.Grammar

/-! ### Runs side by side -/

/-- The states only differ in what is built, and that is related. -/
inductive StateRel (R : List Tree → Arena → Prop) : State (List Tree) → State Arena → Prop
  | mk (ahead : List Token) (expected : List TokenKind) (last : Option Nat)
      (reports : List Report) {ts : List Tree} {a : Arena} (h : R ts a) :
      StateRel R ⟨ahead, expected, last, ts, reports⟩ ⟨ahead, expected, last, a, reports⟩

/-- The outcomes only differ in what is built, and that is related. -/
inductive OutcomeRel (R : List Tree → Arena → Prop) :
    Outcome (List Tree) → Outcome Arena → Prop
  | finished {s : State (List Tree)} {s' : State Arena} (h : StateRel R s s') :
      OutcomeRel R (.finished s) (.finished s')
  | aborted (why : Abort) {s : State (List Tree)} {s' : State Arena} (h : StateRel R s s') :
      OutcomeRel R (.aborted why s) (.aborted why s')

theorem StateRel.mono {R R' : List Tree → Arena → Prop} {s : State (List Tree)}
    {s' : State Arena} (h : StateRel R s s') (himp : ∀ ts a, R ts a → R' ts a) :
    StateRel R' s s' := by
  cases h with
  | mk ahead expected last reports h => exact .mk ahead expected last reports (himp _ _ h)

namespace OutcomeRel

variable {R R' : List Tree → Arena → Prop} {o : Outcome (List Tree)} {o' : Outcome Arena}

theorem mono (h : OutcomeRel R o o') (himp : ∀ ts a, R ts a → R' ts a) : OutcomeRel R' o o' := by
  cases h with
  | finished h => exact .finished (h.mono himp)
  | aborted why h => exact .aborted why (h.mono himp)

theorem andThen {f : State (List Tree) → Outcome (List Tree)} {g : State Arena → Outcome Arena}
    (h : OutcomeRel R o o') (hfg : ∀ s s', StateRel R s s' → OutcomeRel R (f s) (g s')) :
    OutcomeRel R (o.andThen f) (o'.andThen g) := by
  cases h with
  | finished h => exact hfg _ _ h
  | aborted why h => exact .aborted why h

theorem map {f : State (List Tree) → State (List Tree)} {g : State Arena → State Arena}
    (h : OutcomeRel R o o') (hfg : ∀ s s', StateRel R s s' → StateRel R' (f s) (g s')) :
    OutcomeRel R' (o.map f) (o'.map g) := by
  cases h with
  | finished h => exact .finished (hfg _ _ h)
  | aborted why h => exact .aborted why (hfg _ _ h)

end OutcomeRel

/-! ### Inside an open node -/

/-- The trees are those of the node that is open at `id`, and below it the arena
has grown from `start` on. -/
def Within (id : Nat) (outside : List Nat) (start : Arena) (ts : List Tree) (a : Arena) : Prop :=
  a.Open id outside ts ∧ start.Extends id a

section Moves

variable {id : Nat} {outside : List Nat} {start : Arena} {s : State (List Tree)}
  {s' : State Arena}

theorem consume_within (c : Context) (h : StateRel (Within id outside start) s s') :
    StateRel (Within id outside start) (s.consume c) (s'.consume c) := by
  cases h with
  | mk ahead expected last reports h =>
      obtain ⟨hopen, hext⟩ := h.1.add fun nodes j hj => StoredAt.token hj
      exact .mk _ _ _ _ ⟨hopen, h.2.trans hext⟩

theorem skip_within (c : Context) (h : StateRel (Within id outside start) s s') :
    StateRel (Within id outside start) (s.skip c) (s'.skip c) := by
  cases h with
  | mk ahead expected last reports h =>
      obtain ⟨hopen, hext⟩ := h.1.add fun nodes j hj => StoredAt.skipped hj
      exact .mk _ _ _ _ ⟨hopen, h.2.trans hext⟩

theorem skipUpTo_within (c : Context) (n : Nat) :
    ∀ s s', StateRel (Within id outside start) s s' →
      StateRel (Within id outside start) (State.skipUpTo c n s) (State.skipUpTo c n s') := by
  induction n with
  | zero => exact fun s s' h => h
  | succ n ih =>
      intro s s' h
      have hskip := skip_within c h
      cases h with
      | mk ahead expected last reports h =>
          rw [State.skipUpTo, State.skipUpTo]
          dsimp only
          split
          · exact .mk _ _ _ _ h
          · exact ih _ _ hskip

theorem skipStatement_within (c : Context) (h : StateRel (Within id outside start) s s') :
    StateRel (Within id outside start) (s.skipStatement c) (s'.skipStatement c) := by
  have hskip := skipUpTo_within c s.ahead.length s s' h
  cases h with
  | mk ahead expected last reports h => exact hskip

variable {R : List Tree → Arena → Prop}

theorem fail_alike (c : Context) (r : Reaction) (cause : Cause) (h : StateRel R s s') :
    OutcomeRel R (s.fail c r cause) (s'.fail c r cause) := by
  cases h with
  | mk ahead expected last reports h =>
      cases r with
      | bail => exact .aborted _ (.mk _ _ _ _ h)
      | recover => exact .aborted _ (.mk _ _ _ _ h)
      | backtrack => exact .aborted _ (.mk _ _ _ _ h)

theorem refuse_alike (c : Context) (r : Reaction) (why : Refusal) (h : StateRel R s s') :
    OutcomeRel R (s.refuse c r why) (s'.refuse c r why) := by
  cases why with
  | mismatch => exact fail_alike c r _ h
  | gate rule version => exact fail_alike c r _ h
  | noAlternative starts =>
      cases h with
      | mk ahead expected last reports h => exact fail_alike c r _ (.mk _ _ _ _ h)

theorem expect_within (c : Context) (r : Reaction) (kind : TokenKind)
    (h : StateRel (Within id outside start) s s') :
    OutcomeRel (Within id outside start) (s.expect c r kind) (s'.expect c r kind) := by
  cases h with
  | mk ahead expected last reports h =>
      unfold State.expect
      dsimp only
      split_ifs
      · exact .finished (consume_within c (.mk _ _ _ _ h))
      · exact .finished (consume_within c (skip_within c (.mk _ _ _ _ h)))
      · exact .finished (.mk _ _ _ _ h)
      · exact fail_alike c r _ (.mk _ _ _ _ h)

end Moves

section Programs

variable {φ : Type} {c : Context} {rules : φ → Program φ}
  {recurT : Reaction → Program φ → State (List Tree) → Outcome (List Tree)}
  {recurA : Reaction → Program φ → State Arena → Outcome Arena}

/-- In every open node, a program does the same with trees and with an arena. -/
def AlikeWithin (goT : Reaction → Program φ → State (List Tree) → Outcome (List Tree))
    (goA : Reaction → Program φ → State Arena → Outcome Arena) (p : Program φ) : Prop :=
  ∀ (r : Reaction) (id : Nat) (outside : List Nat) (start : Arena) (s : State (List Tree))
    (s' : State Arena), StateRel (Within id outside start) s s' →
      OutcomeRel (Within id outside start) (goT r p s) (goA r p s')

theorem exec_within_node {rule : Rule} {p : Program φ}
    (hp : AlikeWithin (exec c rules recurT) (exec c rules recurA) p) :
    AlikeWithin (exec c rules recurT) (exec c rules recurA) (.node rule p) := by
  intro r id outside start s s' h
  cases h with
  | mk ahead expected last reports h =>
      -- inside the new node the arena grows from the moment when it was opened
      obtain ⟨inner, hopen, hclose⟩ := h.1.enter rule (c.peek ahead 0).index
      refine OutcomeRel.map (hp r _ inner _ _ _ (.mk _ _ _ _ ⟨hopen, .refl _ _⟩)) ?_
      intro s₁ s₁' h₁
      cases h₁ with
      | mk ahead₁ expected₁ last₁ reports₁ h₁ =>
          obtain ⟨hopen', hext⟩ := hclose _ _ last₁ h₁.2 h₁.1
          exact .mk _ _ _ _ ⟨hopen', h.2.trans hext⟩

theorem exec_within_wrap {rule : Rule} {p : Program φ}
    (hp : AlikeWithin (exec c rules recurT) (exec c rules recurA) p) :
    AlikeWithin (exec c rules recurT) (exec c rules recurA) (.wrap rule p) := by
  intro r id outside start s s' h
  cases h with
  | mk ahead expected last reports h =>
      -- the last part moves into the new node, which takes its place
      obtain ⟨inner, hopen, hclose⟩ := h.1.enterAround rule (c.peek ahead 0).index
      refine OutcomeRel.map (hp r _ inner _ _ _ (.mk _ _ _ _ ⟨hopen, .refl _ _⟩)) ?_
      intro s₁ s₁' h₁
      cases h₁ with
      | mk ahead₁ expected₁ last₁ reports₁ h₁ =>
          obtain ⟨hopen', hext⟩ := hclose _ _ last₁ h₁.2 h₁.1
          exact .mk _ _ _ _ ⟨hopen', h.2.trans hext⟩

/-- What an attempt built is taken back from the arena as from the trees. -/
theorem undo_within {id : Nat} {outside : List Nat} {start a : Arena} {ts : List Tree}
    (h : Within id outside start ts a) {s : State (List Tree)} {s' : State Arena}
    (hs : StateRel (Within id outside a) s s') (ahead : List Token)
    (expected : List TokenKind) (last : Option Nat) (reports : List Report) :
    StateRel (Within id outside start)
      (State.undo ⟨ahead, expected, last, ts, reports⟩ s)
      (State.undo ⟨ahead, expected, last, a, reports⟩ s') := by
  cases hs with
  | @mk ahead₁ expected₁ last₁ reports₁ ts₁ a₁ h₁ =>
      obtain ⟨n, ids, hn, -, -⟩ := h.1.stored
      have hundo : Arena.undo a a₁ = a :=
        h₁.2.undo h.1.top (Array.getElem?_eq_some_iff.1 hn).1
      refine .mk _ _ _ _ ?_
      show Within id outside start ts (Arena.undo a a₁)
      rw [hundo]
      exact h

theorem exec_within_attempt {p q : Program φ}
    (hp : AlikeWithin (exec c rules recurT) (exec c rules recurA) p)
    (hq : AlikeWithin (exec c rules recurT) (exec c rules recurA) q) :
    AlikeWithin (exec c rules recurT) (exec c rules recurA) (.attempt p q) := by
  intro r id outside start s s' h
  cases h with
  | @mk ahead expected last reports ts a h =>
      -- the attempt is followed from its own start, so that it can be taken back
      have hp' := hp .backtrack id outside a _ _
        (.mk ahead expected last reports ⟨h.1, .refl _ _⟩)
      rw [exec, exec]
      generalize exec c rules recurT .backtrack p ⟨ahead, expected, last, ts, reports⟩ = o at hp' ⊢
      generalize exec c rules recurA .backtrack p ⟨ahead, expected, last, a, reports⟩ = o' at hp' ⊢
      have hgrow : ∀ us b, Within id outside a us b → Within id outside start us b :=
        fun us b hb => ⟨hb.1, h.2.trans hb.2⟩
      cases hp' with
      | finished hs => exact .finished (hs.mono hgrow)
      | aborted why hs =>
          have hq' := hq r id outside start _ _ (undo_within h hs ahead expected last reports)
          cases why with
          | exhausted => exact .aborted _ (hs.mono hgrow)
          | cancelled token => exact hq'
          | resync => exact hq'
          | backtrack => exact hq'

/-- In an open node, a program does the same with trees and with an arena when
everything that it calls does. -/
theorem exec_within (hrecur : ∀ p, AlikeWithin recurT recurA p) (p : Program φ) :
    AlikeWithin (exec c rules recurT) (exec c rules recurA) p := by
  induction p with
  | done => exact fun r id outside start s s' h => .finished h
  | advance => exact fun r id outside start s s' h => .finished (consume_within c h)
  | expect kind => exact fun r id outside start s s' h => expect_within c r kind h
  | refuse why => exact fun r id outside start s s' h => refuse_alike c r why h
  | seq p q ihp ihq =>
      intro r id outside start s s' h
      exact (ihp r id outside start s s' h).andThen (ihq r id outside start)
  | cond t p q ihp ihq =>
      intro r id outside start s s' h
      cases h with
      | mk ahead expected last reports h =>
          rw [exec, exec]
          dsimp only
          split
          · exact ihp r id outside start _ _ (.mk _ _ _ _ h)
          · exact ihq r id outside start _ _ (.mk _ _ _ _ h)
  | loop t p ih =>
      intro r id outside start s s' h
      cases h with
      | mk ahead expected last reports h =>
          rw [exec, exec]
          dsimp only
          split
          · exact (ih r id outside start _ _ (.mk _ _ _ _ h)).andThen
              (hrecur (.loop t p) r id outside start)
          · exact .finished (.mk _ _ _ _ h)
  | node rule p ih => exact exec_within_node ih
  | wrap rule p ih => exact exec_within_wrap ih
  | attempt p q ihp ihq => exact exec_within_attempt ihp ihq
  | resume p ih =>
      intro r id outside start s s' h
      have hp := ih r id outside start s s' h
      rw [exec, exec]
      generalize exec c rules recurT r p s = o at hp ⊢
      generalize exec c rules recurA r p s' = o' at hp ⊢
      cases hp with
      | finished hs => exact .finished hs
      | aborted why hs =>
          cases why with
          | resync => exact .finished (skipStatement_within c hs)
          | cancelled token => exact .aborted _ hs
          | backtrack => exact .aborted _ hs
          | exhausted => exact .aborted _ hs
  | call phrase => exact hrecur (rules phrase)

/-- In an open node, a run with trees and a run with an arena are alike. -/
theorem run_within (c : Context) (rules : φ → Program φ) (fuel : Nat) :
    ∀ p : Program φ, AlikeWithin (run c rules fuel) (run c rules fuel) p := by
  induction fuel with
  | zero => exact fun p r id outside start s s' h => .aborted _ h
  | succ fuel ih => exact exec_within ih

end Programs

/-! ### The root -/

/-- One tree is built, and all nodes of the arena belong to it. -/
def RootBuilt (ts : List Tree) (a : Arena) : Prop :=
  ∃ t, ts = [t] ∧ a.Rooted t

/-- Nothing is built. -/
def NothingBuilt (ts : List Tree) (a : Arena) : Prop :=
  ts = [] ∧ a = .empty

namespace Program

variable {φ : Type}

/-- Whether a program only builds nodes around what was built before. -/
def wraps : Program φ → Bool
  | done => true
  | seq p q => p.wraps && q.wraps
  | cond _ p q => p.wraps && q.wraps
  | loop _ p => p.wraps
  | wrap _ _ => true
  | _ => false

/-- Whether a program builds a node and then only nodes around it; `called` says
this of phrases. -/
def roots (called : φ → Bool) : Program φ → Bool
  | seq p q => p.roots called && q.wraps
  | cond _ p q => p.roots called && q.roots called
  | node _ _ => true
  | call phrase => called phrase
  | _ => false

/-- Whether a program builds one root, with at most `depth` calls inside each other. -/
def rootsWithin (rules : φ → Program φ) : (depth : Nat) → Program φ → Bool
  | 0, _ => false
  | depth + 1, p => p.roots fun phrase => rootsWithin rules depth (rules phrase)

end Program

section Root

variable {φ : Type} {c : Context} {rules : φ → Program φ}
  {recurT : Reaction → Program φ → State (List Tree) → Outcome (List Tree)}
  {recurA : Reaction → Program φ → State Arena → Outcome Arena}

/-- A program that only builds around the root leaves one root. -/
theorem exec_wraps (hwithin : ∀ p, AlikeWithin recurT recurA p)
    (hrecur : ∀ r p s s', p.wraps = true → StateRel RootBuilt s s' →
      OutcomeRel RootBuilt (recurT r p s) (recurA r p s'))
    (p : Program φ) :
    ∀ r s s', p.wraps = true → StateRel RootBuilt s s' →
      OutcomeRel RootBuilt (exec c rules recurT r p s) (exec c rules recurA r p s') := by
  induction p with
  | done => exact fun r s s' hp h => .finished h
  | seq p q ihp ihq =>
      intro r s s' hp h
      rw [Program.wraps, Bool.and_eq_true] at hp
      exact (ihp r s s' hp.1 h).andThen fun s₁ s₁' h₁ => ihq r s₁ s₁' hp.2 h₁
  | cond t p q ihp ihq =>
      intro r s s' hp h
      rw [Program.wraps, Bool.and_eq_true] at hp
      cases h with
      | mk ahead expected last reports h =>
          rw [exec, exec]
          dsimp only
          split
          · exact ihp r _ _ hp.1 (.mk _ _ _ _ h)
          · exact ihq r _ _ hp.2 (.mk _ _ _ _ h)
  | loop t p ih =>
      intro r s s' hp h
      cases h with
      | mk ahead expected last reports h =>
          rw [exec, exec]
          dsimp only
          split
          · exact (ih r _ _ hp (.mk _ _ _ _ h)).andThen fun s₁ s₁' h₁ => hrecur r _ s₁ s₁' hp h₁
          · exact .finished (.mk _ _ _ _ h)
  | wrap rule p =>
      intro r s s' hp h
      cases h with
      | mk ahead expected last reports h =>
          -- the root moves to the end of the table, and the new node takes its place
          obtain ⟨t, rfl, hrooted⟩ := h
          obtain ⟨hopen, hclose⟩ := hrooted.enterAround rule (c.peek ahead 0).index
          refine OutcomeRel.map
            (exec_within hwithin p r 0 [] _ _ _ (.mk _ _ _ _ ⟨hopen, .refl _ _⟩)) ?_
          intro s₁ s₁' h₁
          cases h₁ with
          | mk ahead₁ expected₁ last₁ reports₁ h₁ =>
              exact .mk _ _ _ _ ⟨_, rfl, hclose _ _ last₁ h₁.2 h₁.1⟩
  | _ =>
      intro r s s' hp
      cases hp

theorem run_wraps (c : Context) (rules : φ → Program φ) (fuel : Nat) :
    ∀ r (p : Program φ) s s', p.wraps = true → StateRel RootBuilt s s' →
      OutcomeRel RootBuilt (run c rules fuel r p s) (run c rules fuel r p s') := by
  induction fuel with
  | zero => exact fun r p s s' hp h => .aborted _ h
  | succ fuel ih => exact fun r p => exec_wraps (run_within c rules fuel) ih p r

/-- A program that builds one root does so however it ends. -/
theorem exec_roots {called : φ → Bool} {fuel : Nat}
    (hcalled : ∀ phrase, called phrase = true → ∀ r s s', StateRel NothingBuilt s s' →
      OutcomeRel RootBuilt (run c rules fuel r (rules phrase) s)
        (run c rules fuel r (rules phrase) s'))
    (p : Program φ) :
    ∀ r s s', p.roots called = true → StateRel NothingBuilt s s' →
      OutcomeRel RootBuilt (exec c rules (run c rules fuel) r p s)
        (exec c rules (run c rules fuel) r p s') := by
  induction p with
  | seq p q ihp ihq =>
      intro r s s' hp h
      rw [Program.roots, Bool.and_eq_true] at hp
      refine (ihp r s s' hp.1 h).andThen fun s₁ s₁' h₁ => ?_
      exact exec_wraps (run_within c rules fuel) (run_wraps c rules fuel) q r s₁ s₁' hp.2 h₁
  | cond t p q ihp ihq =>
      intro r s s' hp h
      rw [Program.roots, Bool.and_eq_true] at hp
      cases h with
      | mk ahead expected last reports h =>
          rw [exec, exec]
          dsimp only
          split
          · exact ihp r _ _ hp.1 (.mk _ _ _ _ h)
          · exact ihq r _ _ hp.2 (.mk _ _ _ _ h)
  | node rule p =>
      intro r s s' hp h
      cases h with
      | mk ahead expected last reports h =>
          obtain ⟨rfl, rfl⟩ := h
          obtain ⟨hopen, hclose⟩ := Arena.open_root rule (c.peek ahead 0).index
          refine OutcomeRel.map
            (exec_within (run_within c rules fuel) p r 0 [] _ _ _
              (.mk _ _ _ _ ⟨hopen, .refl _ _⟩)) ?_
          intro s₁ s₁' h₁
          cases h₁ with
          | mk ahead₁ expected₁ last₁ reports₁ h₁ =>
              exact .mk _ _ _ _ ⟨_, rfl, hclose _ _ last₁ h₁.2 h₁.1⟩
  | call phrase => exact fun r s s' hp h => hcalled phrase hp r s s' h
  | _ =>
      -- no other program builds a root
      intro r s s' hp
      cases hp

theorem run_roots (c : Context) (rules : φ → Program φ) (depth : Nat) :
    ∀ (fuel : Nat) r (p : Program φ) s s', p.rootsWithin rules depth = true → depth ≤ fuel →
      StateRel NothingBuilt s s' →
        OutcomeRel RootBuilt (run c rules fuel r p s) (run c rules fuel r p s') := by
  induction depth with
  | zero =>
      intro fuel r p s s' hp
      cases hp
  | succ depth ih =>
      intro fuel r p s s' hp hfuel h
      cases fuel with
      | zero => exact absurd hfuel (Nat.not_succ_le_zero _)
      | succ fuel =>
          -- every call takes one of the depth and one of the fuel
          refine exec_roots (fun phrase hphrase r s s' => ?_) p r s s' hp h
          exact ih fuel r (rules phrase) s s' hphrase (Nat.le_of_succ_le_succ hfuel)

end Root

/-- The program of every start rule builds one root. -/
theorem program_roots (rule : StartRule) : rule.program.rootsWithin grammar 3 = true := by
  cases rule <;> rfl

/-- With trees and with an arena a start rule comes to the same outcome. One
tree is built, and all nodes of the arena belong to it. -/
theorem outcomeIn_alike (o : Options) (rule : StartRule) (tokens : List Token) :
    OutcomeRel RootBuilt (outcomeOf o rule tokens) (outcomeIn Arena o rule tokens) := by
  refine run_roots _ grammar 3 _ _ _ _ _ (program_roots rule) ?_ (.mk _ _ _ _ ⟨rfl, rfl⟩)
  rw [fuelFor, callDepth]
  omega

/-- Every run builds one tree, which the arena of the run consists of. -/
theorem outcomeOf_root (o : Options) (rule : StartRule) (tokens : List Token) :
    ∃ t, (outcomeOf o rule tokens).state.built = [t] ∧ (arenaOf o rule tokens).Rooted t := by
  have halike := outcomeIn_alike o rule tokens
  rw [arenaOf]
  generalize outcomeOf o rule tokens = outcome at halike ⊢
  generalize outcomeIn Arena o rule tokens = outcome' at halike ⊢
  cases halike with
  | finished h =>
      cases h with
      | mk ahead expected last reports h => exact h
  | aborted why h =>
      cases h with
      | mk ahead expected last reports h => exact h

end MySqlAnalysis.Grammar
