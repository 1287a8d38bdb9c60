import MySqlAnalysis.Proofs.Grammar.Siblings

/-!
# Relations between what was built before and after

What a run leaves of the trees that were there is often a preorder in which a new leaf
only adds to the trees before it (`LeafPreorder`). Such a relation holds between the
trees before and after any program that is checked, when it holds for the nodes that the
program opens, for the phrases that it calls and for the further rounds of its loops
(`exec_relates`).
-/

set_option autoImplicit false

namespace MySqlAnalysis.Grammar

variable {φ : Type}

/-- A preorder on what is built that new leaves behind the other trees keep. -/
structure LeafPreorder (R : List Tree → List Tree → Prop) : Prop where
  refl : ∀ ts, R ts ts
  trans : ∀ {ts ts' ts''}, R ts ts' → R ts' ts'' → R ts ts''
  token : ∀ ts i, R ts (ts ++ [.token i])
  skipped : ∀ ts i, R ts (ts ++ [.skipped i])

namespace LeafPreorder

variable {R : List Tree → List Tree → Prop} {c : Context}

theorem skipUpTo (hR : LeafPreorder R) (n : Nat) :
    ∀ s : State (List Tree), R s.built (State.skipUpTo c n s).built := by
  induction n with
  | zero => exact fun s => hR.refl s.built
  | succ n ih =>
      intro s
      rw [State.skipUpTo]
      split
      · exact hR.refl s.built
      · exact hR.trans (hR.skipped s.built (s.current c).index) (ih (s.skip c))

theorem refuse (hR : LeafPreorder R) (r : Reaction) (why : Refusal) (s : State (List Tree)) :
    R s.built (s.refuse c r why).state.built := by
  cases why <;> cases r <;> exact hR.refl s.built

theorem expect (hR : LeafPreorder R) (r : Reaction) (kind : TokenKind) (s : State (List Tree)) :
    R s.built (s.expect c r kind).state.built := by
  unfold State.expect
  dsimp only
  split_ifs
  · exact hR.token s.built _
  · -- the token in front of the required one is skipped
    exact hR.trans (hR.skipped s.built (s.current c).index) (hR.token _ _)
  · exact hR.refl s.built
  · cases r <;> exact hR.refl s.built

theorem andThen (hR : LeafPreorder R) {ts : List Tree} {o : Outcome (List Tree)}
    {f : State (List Tree) → Outcome (List Tree)} (ho : R ts o.state.built)
    (hf : ∀ s, R s.built (f s).state.built) : R ts (o.andThen f).state.built := by
  cases o with
  | finished s => exact hR.trans ho (hf s)
  | aborted why s => exact ho

end LeafPreorder

/-- A program relates what was built before it to what was built after it. -/
def Relates (R : List Tree → List Tree → Prop)
    (go : Reaction → Program φ → State (List Tree) → Outcome (List Tree)) (p : Program φ) : Prop :=
  ∀ (r : Reaction) (s : State (List Tree)), R s.built (go r p s).state.built

/-- A check that programs hand down to the parts that they run in the open node. -/
structure Program.Hereditary (ok : Program φ → Prop) : Prop where
  seq : ∀ {p q}, ok (.seq p q) → ok p ∧ ok q
  cond : ∀ {t p q}, ok (.cond t p q) → ok p ∧ ok q
  loop : ∀ {t p}, ok (.loop t p) → ok p
  attempt : ∀ {p q}, ok (.attempt p q) → ok p ∧ ok q
  resume : ∀ {p}, ok (.resume p) → ok p

/-- A checked program keeps a preorder that its nodes, its calls and the further rounds
of its loops keep. -/
theorem exec_relates {R : List Tree → List Tree → Prop} {ok : Program φ → Prop} {c : Context}
    {rules : φ → Program φ}
    {recur : Reaction → Program φ → State (List Tree) → Outcome (List Tree)}
    (hR : LeafPreorder R) (hok : Program.Hereditary ok)
    (hnode : ∀ rule p, ok (.node rule p) → (ok p → Relates R (exec c rules recur) p) →
      Relates R (exec c rules recur) (.node rule p))
    (hwrap : ∀ rule p, ok (.wrap rule p) → (ok p → Relates R (exec c rules recur) p) →
      Relates R (exec c rules recur) (.wrap rule p))
    (hloop : ∀ t p, ok (.loop t p) → Relates R recur (.loop t p))
    (hcall : ∀ phrase, ok (.call phrase) → Relates R recur (rules phrase)) (p : Program φ) :
    ok p → Relates R (exec c rules recur) p := by
  induction p with
  | done => exact fun h r s => hR.refl s.built
  | advance => exact fun h r s => hR.token s.built _
  | expect kind => exact fun h r s => hR.expect r kind s
  | refuse why => exact fun h r s => hR.refuse r why s
  | seq p q ihp ihq =>
      intro h r s
      rw [exec]
      exact hR.andThen (ihp (hok.seq h).1 r s) (ihq (hok.seq h).2 r)
  | cond t p q ihp ihq =>
      intro h r s
      rw [exec]
      split
      case h_1 expected heval => exact ihp (hok.cond h).1 r { s with expected }
      case h_2 expected heval => exact ihq (hok.cond h).2 r { s with expected }
  | loop t p ih =>
      intro h r s
      rw [exec]
      split
      case h_1 expected heval =>
        have hround : R s.built (exec c rules recur r p { s with expected }).state.built :=
          ih (hok.loop h) r { s with expected }
        exact hR.andThen hround (hloop t p h r)
      case h_2 => exact hR.refl s.built
  | node rule p ih => exact fun h => hnode rule p h ih
  | wrap rule p ih => exact fun h => hwrap rule p h ih
  | attempt p q ihp ihq =>
      intro h r s
      have hp := ihp (hok.attempt h).1 .backtrack s
      rw [exec]
      split
      case h_1 s' ho =>
        rw [ho] at hp
        exact hp
      case h_2 s' ho =>
        rw [ho] at hp
        exact hp
      case h_3 why s' hne ho =>
        -- the attempt is taken back, so the other alternative starts from the same trees
        exact ihq (hok.attempt h).2 r (s.undo s')
  | resume p ih =>
      intro h r s
      have hp := ih (hok.resume h) r s
      rw [exec]
      split
      case h_1 s' ho =>
        rw [ho] at hp
        exact hR.trans hp (hR.skipUpTo _ s')
      case h_2 => exact hp
  | call phrase => exact fun h r s => hcall phrase h r s

end MySqlAnalysis.Grammar
