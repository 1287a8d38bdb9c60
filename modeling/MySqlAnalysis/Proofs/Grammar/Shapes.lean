import Mathlib.Data.List.Dedup
import MySqlAnalysis.Proofs.Grammar.Balanced

/-!
# The parts of nodes

The first parts that the nodes of a rule can have are read off the programs that build
them (`Program.shapes`): the shapes that are known so far are carried along each program,
through the rounds of its loops until they add nothing new. What a phrase adds and what
the nodes of a rule can look like is given by tables that the programs are checked
against. Runs without recovery build nodes of these shapes (`Evaluates.shaped`).
-/

set_option autoImplicit false

namespace MySqlAnalysis

namespace Grammar

variable {φ : Type}

/-! ### Shapes -/

/-- What is known of a part. -/
inductive PartShape where
  /-- A token, of the kind if one is given. -/
  | token (kind : Option TokenKind)
  /-- A node of the rule. -/
  | node (rule : Rule)
  /-- Any part. -/
  | other
  deriving DecidableEq

/-- What is known of a list of parts: the first ones, and whether there may be more. -/
structure Shape where
  parts : List PartShape
  more : Bool
  deriving DecidableEq

namespace PartShape

/-- Whether the first shape tells no more than the second one. -/
def covers : PartShape → PartShape → Bool
  | other, _ => true
  | token none, token _ => true
  | p, q => p == q

/-- The tree is as the shape says. -/
def Fits (tokens : List Token) : PartShape → Tree → Prop
  | token kind, t => ∃ i, t = .token i ∧ ∀ k ∈ kind, ∃ u, tokens[i]? = some u ∧ u.kind = k
  | node rule, t => t.rule? = some rule
  | other, _ => True

end PartShape

namespace Shape

/-- No parts. -/
def empty : Shape := ⟨[], false⟩

/-- Any parts. -/
def any : Shape := ⟨[], true⟩

/-- The shape after parts were added; only the first `n` parts are told. -/
def append (n : Nat) (s added : Shape) : Shape :=
  if s.more then s
  else
    ⟨(s.parts ++ added.parts).take n, added.more || n < (s.parts ++ added.parts).length⟩

/-- The shape after a part was added; only the first `n` parts are told. -/
def push (n : Nat) (s : Shape) (p : PartShape) : Shape :=
  s.append n ⟨[p], false⟩

/-- The shape when more parts may have been added. -/
def opened (s : Shape) : Shape := ⟨s.parts, true⟩

/-- The last part, and the shape after a node was opened around it. -/
def around? (s : Shape) (rule : Rule) : Option (PartShape × Shape) :=
  if s.more then none
  else s.parts.getLast?.map fun last => (last, ⟨s.parts.dropLast ++ [.node rule], false⟩)

/-- Whether the shape of the parts `ps` tells no more than that of the parts `qs`. -/
def coversParts (more more' : Bool) : (ps qs : List PartShape) → Bool
  | [], qs => more || (qs.isEmpty && !more')
  | p :: ps, q :: qs => p.covers q && coversParts more more' ps qs
  | _ :: _, [] => false

/-- Whether the first shape tells no more than the second one. -/
def covers (s s' : Shape) : Bool :=
  coversParts s.more s'.more s.parts s'.parts

/-- The trees are as the shapes of the parts say. -/
def FitsParts (tokens : List Token) (more : Bool) : List PartShape → List Tree → Prop
  | [], ts => more = true ∨ ts = []
  | p :: ps, t :: ts => p.Fits tokens t ∧ FitsParts tokens more ps ts
  | _ :: _, [] => False

/-- The trees are as the shape says. -/
def Fits (tokens : List Token) (s : Shape) (ts : List Tree) : Prop :=
  FitsParts tokens s.more s.parts ts

section Fits

variable {tokens : List Token} {more : Bool} {ps : List PartShape} {p : PartShape}
  {s s' : Shape} {t : Tree} {ts ts' : List Tree}

theorem FitsParts.append {qs : List PartShape} (h : FitsParts tokens false ps ts)
    (h' : FitsParts tokens more qs ts') : FitsParts tokens more (ps ++ qs) (ts ++ ts') := by
  induction ps generalizing ts with
  | nil =>
      rcases h with h | rfl
      · cases h
      · exact h'
  | cons p ps ih =>
      cases ts with
      | nil => exact h.elim
      | cons t ts => exact ⟨h.1, ih h.2⟩

theorem FitsParts.opened (h : FitsParts tokens more ps ts) :
    FitsParts tokens true ps (ts ++ ts') := by
  induction ps generalizing ts with
  | nil => exact .inl rfl
  | cons p ps ih =>
      cases ts with
      | nil => exact h.elim
      | cons t ts => exact ⟨h.1, ih h.2⟩

theorem FitsParts.take (n : Nat) (h : FitsParts tokens more ps ts) :
    FitsParts tokens (more || n < ps.length) (ps.take n) ts := by
  induction ps generalizing n ts with
  | nil => simpa using h
  | cons p ps ih =>
      cases ts with
      | nil => exact h.elim
      | cons t ts =>
          cases n with
          | zero => exact .inl (by simp)
          | succ n =>
              have hrest := ih n h.2
              simpa [FitsParts] using And.intro h.1 hrest

theorem fits_empty : empty.Fits tokens [] := .inr rfl

theorem Fits.append (n : Nat) (h : s.Fits tokens ts) (h' : s'.Fits tokens ts') :
    (s.append n s').Fits tokens (ts ++ ts') := by
  rw [Shape.append]
  obtain ⟨ps, more⟩ := s
  cases more with
  | true => exact FitsParts.opened h
  | false => exact (FitsParts.append h h').take n

theorem Fits.push (n : Nat) (h : s.Fits tokens ts) (ht : p.Fits tokens t) :
    (s.push n p).Fits tokens (ts ++ [t]) := by
  have hpart : Shape.Fits tokens ⟨[p], false⟩ [t] := ⟨ht, .inr rfl⟩
  exact h.append n hpart

theorem Fits.opened (h : s.Fits tokens ts) : s.opened.Fits tokens ts := by
  rw [← List.append_nil ts]
  exact FitsParts.opened h

/-- The last of the parts, when all of them are known. -/
theorem FitsParts.concat (h : FitsParts tokens false (ps ++ [p]) ts) :
    ∃ front t, ts = front ++ [t] ∧ FitsParts tokens false ps front ∧ p.Fits tokens t := by
  induction ps generalizing ts with
  | nil =>
      cases ts with
      | nil => exact h.elim
      | cons t ts =>
          obtain ⟨ht, hnone | rfl⟩ := h
          · cases hnone
          · exact ⟨[], t, rfl, .inr rfl, ht⟩
  | cons q ps ih =>
      cases ts with
      | nil => exact h.elim
      | cons u ts =>
          obtain ⟨front, t, rfl, hfront, ht⟩ := ih h.2
          exact ⟨u :: front, t, rfl, ⟨h.1, hfront⟩, ht⟩

theorem Fits.around? {rule : Rule} {last : PartShape} (h : s.Fits tokens ts)
    (haround : s.around? rule = some (last, s')) :
    ∃ front t, ts = front ++ [t] ∧ last.Fits tokens t ∧
      ∀ t', t'.rule? = some rule → s'.Fits tokens (front ++ [t']) := by
  obtain ⟨ps, more⟩ := s
  cases more with
  | true => cases haround
  | false =>
      rw [Shape.around?, if_neg (by simp)] at haround
      obtain ⟨p, hp, heq⟩ := Option.map_eq_some_iff.1 haround
      obtain ⟨rfl, rfl⟩ := Prod.mk.inj heq
      obtain ⟨init, rfl⟩ := List.getLast?_eq_some_iff.1 hp
      obtain ⟨front, t, rfl, hfront, ht⟩ := FitsParts.concat h
      refine ⟨front, t, rfl, ht, fun t' ht' => ?_⟩
      rw [List.dropLast_concat]
      exact FitsParts.append hfront ⟨ht', .inr rfl⟩

theorem PartShape.Fits.of_covers {q : PartShape} (h : q.Fits tokens t)
    (hcovers : p.covers q = true) : p.Fits tokens t := by
  unfold PartShape.covers at hcovers
  split at hcovers
  · trivial
  · obtain ⟨i, rfl, -⟩ := h
    exact ⟨i, rfl, fun k hk => nomatch hk⟩
  · rw [beq_iff_eq] at hcovers
    exact hcovers ▸ h

theorem FitsParts.of_covers {more' : Bool} {qs : List PartShape}
    (h : FitsParts tokens more' qs ts) (hcovers : coversParts more more' ps qs = true) :
    FitsParts tokens more ps ts := by
  induction ps generalizing qs ts with
  | nil =>
      rw [coversParts, Bool.or_eq_true, Bool.and_eq_true, Bool.not_eq_true'] at hcovers
      refine hcovers.imp_right ?_
      rintro ⟨hnil, rfl⟩
      obtain rfl := List.isEmpty_iff.1 hnil
      exact h.resolve_left Bool.false_ne_true
  | cons p ps ih =>
      cases qs with
      | nil => cases hcovers
      | cons q qs =>
          cases ts with
          | nil => exact h.elim
          | cons t ts =>
              obtain ⟨hpart, hrest⟩ := Bool.and_eq_true_iff.1 hcovers
              exact ⟨PartShape.Fits.of_covers h.1 hpart, ih h.2 hrest⟩

theorem Fits.of_covers (h : s'.Fits tokens ts) (hcovers : s.covers s' = true) :
    s.Fits tokens ts :=
  FitsParts.of_covers h hcovers

end Fits

/-! ### Lists of shapes -/

/-- The trees are as one of the shapes says. -/
def FitsAny (tokens : List Token) (S : List Shape) (ts : List Tree) : Prop :=
  ∃ s ∈ S, s.Fits tokens ts

/-- Whether every shape of the second list tells no less than one of the first list. -/
def allCovered (S T : List Shape) : Bool :=
  T.all fun s => S.any (·.covers s)

/-- The shapes of both lists. -/
def merge (S T : List Shape) : List Shape :=
  S ++ T.filter (!S.contains ·)

/-- The number of parts that are told at most. -/
def width (S : List Shape) : Nat :=
  S.foldl (fun n s => max n s.parts.length) 0

/-- The shapes, if a round adds no others. -/
def closed (round : List Shape → Option (List Shape)) (S : List Shape) : Option (List Shape) :=
  (round S).bind fun T => if T ⊆ S then some S else none

/-- The shapes after any number of rounds: those after one round, if no round adds to them,
or else what is known before the first round. -/
def rounds (round : List Shape → Option (List Shape)) (S : List Shape) : Option (List Shape) :=
  ((round S).bind fun T => closed round (merge S T)).or (closed round (S.map opened).dedup)

/-- The shapes after a node was opened around the last part, if `inside` accepts that part. -/
def wrapped (rule : Rule) (inside : PartShape → Bool) (S : List Shape) : Option (List Shape) :=
  (S.mapM fun s : Shape => (s.around? rule).bind fun around =>
    if inside around.1 then some around.2 else none).map List.dedup

section Lists

variable {tokens : List Token} {S T : List Shape} {ts : List Tree}
  {round : List Shape → Option (List Shape)}

theorem FitsAny.mono (h : FitsAny tokens S ts) (hST : S ⊆ T) : FitsAny tokens T ts := by
  obtain ⟨s, hs, hfits⟩ := h
  exact ⟨s, hST hs, hfits⟩

theorem FitsAny.of_covered (h : FitsAny tokens T ts) (hcovered : allCovered S T = true) :
    FitsAny tokens S ts := by
  obtain ⟨s, hs, hfits⟩ := h
  obtain ⟨s', hs', hcovers⟩ := List.any_eq_true.1 (List.all_eq_true.1 hcovered s hs)
  exact ⟨s', hs', hfits.of_covers hcovers⟩

theorem FitsAny.map {f : Shape → Shape} {ts' : List Tree} (h : FitsAny tokens S ts)
    (hf : ∀ s, s.Fits tokens ts → (f s).Fits tokens ts') :
    FitsAny tokens (S.map f).dedup ts' := by
  obtain ⟨s, hs, hfits⟩ := h
  exact ⟨f s, List.mem_dedup.2 (List.mem_map_of_mem hs), hf s hfits⟩

theorem subset_merge_left : S ⊆ merge S T := List.subset_append_left _ _

theorem subset_merge_right : T ⊆ merge S T := by
  intro s hs
  by_cases hmem : s ∈ S
  · exact subset_merge_left hmem
  · exact List.mem_append_right _ (List.mem_filter.2 ⟨hs, by simpa using hmem⟩)

theorem merge_eq_left (h : T ⊆ S) : merge S T = S := by
  have hnil : T.filter (!S.contains ·) = [] :=
    List.filter_eq_nil_iff.2 fun s hs => by simpa using h hs
  rw [merge, hnil, List.append_nil]

theorem closed_eq_some (h : closed round S = some T) :
    S = T ∧ ∃ R, round T = some R ∧ R ⊆ T := by
  obtain ⟨R, hR, h⟩ := Option.bind_eq_some_iff.1 h
  split at h
  · next hsub =>
    cases h
    exact ⟨rfl, R, hR, hsub⟩
  · cases h

theorem FitsAny.rounds (h : FitsAny tokens S ts) (hT : rounds round S = some T) :
    FitsAny tokens T ts := by
  rcases Option.or_eq_some_iff.1 hT with hT | ⟨-, hT⟩
  · obtain ⟨R, -, hclosed⟩ := Option.bind_eq_some_iff.1 hT
    obtain ⟨rfl, -⟩ := closed_eq_some hclosed
    exact h.mono subset_merge_left
  · obtain ⟨rfl, -⟩ := closed_eq_some hT
    exact h.map fun s => Fits.opened

/-- What is known after any number of rounds is known after one more. -/
theorem rounds_eq_some (h : rounds round S = some T) : ∃ R, round T = some R ∧ R ⊆ T := by
  rcases Option.or_eq_some_iff.1 h with h | ⟨-, h⟩
  · obtain ⟨R, -, hclosed⟩ := Option.bind_eq_some_iff.1 h
    exact (closed_eq_some hclosed).2
  · exact (closed_eq_some h).2

theorem wrapped_eq_some {rule : Rule} {inside : PartShape → Bool} {s : Shape} (hs : s ∈ S)
    (h : wrapped rule inside S = some T) :
    ∃ last s', s.around? rule = some (last, s') ∧ inside last = true ∧ s' ∈ T := by
  obtain ⟨R, hR, rfl⟩ := Option.map_eq_some_iff.1 h
  simp only [List.mem_dedup]
  clear h
  induction S generalizing R with
  | nil => cases hs
  | cons s₀ S ih =>
      simp only [List.mapM_cons, Option.bind_eq_bind, Option.pure_def, Option.bind_eq_some_iff,
        Option.some.injEq] at hR
      obtain ⟨s₁, ⟨⟨last, s'⟩, haround, hinside⟩, R', hR', rfl⟩ := hR
      rcases List.mem_cons.1 hs with rfl | hs
      · split at hinside
        · next hlast =>
          cases hinside
          exact ⟨last, s', haround, hlast, List.mem_cons_self⟩
        · cases hinside
      · obtain ⟨last', s'', haround', hlast', hmem⟩ := ih hs R' hR'
        exact ⟨last', s'', haround', hlast', List.mem_cons_of_mem _ hmem⟩

theorem rounds_of_closed {R : List Shape} (h : round T = some R) (hR : R ⊆ T) :
    rounds round T = some T := by
  have hclosed : closed round T = some T := by
    rw [closed, h, Option.bind_some, if_pos hR]
  rw [rounds, h, Option.bind_some, merge_eq_left hR, hclosed]
  rfl

end Lists

end Shape

/-! ### Programs -/

/-- The shapes of the parts of a node after a program, from the shapes before it; only the
first `n` parts are told. `calls` gives the shapes of what phrases add, `table` those of the
parts of the nodes of each rule; there is no result when a node does not fit the table. -/
def Program.shapes (calls : φ → List Shape) (table : Rule → List Shape) :
    Program φ → (n : Nat) → List Shape → Option (List Shape)
  | done, _, S => some S
  | advance, n, S => some (S.map (·.push n (.token none))).dedup
  | expect kind, n, S =>
    if kind = .eof then none else some (S.map (·.push n (.token (some kind)))).dedup
  | refuse _, _, _ => some []
  | seq p q, n, S => (p.shapes calls table n S).bind (q.shapes calls table n)
  | cond _ p q, n, S =>
    (p.shapes calls table n S).bind fun T => (q.shapes calls table n S).map (Shape.merge T)
  | loop _ p, n, S => Shape.rounds (p.shapes calls table n) S
  | node r p, n, S =>
    if (p.shapes calls table (Shape.width (table r)) [.empty]).any
        (Shape.allCovered (table r)) then
      some (S.map (·.push n (.node r))).dedup
    else none
  | wrap r p, _, S =>
    Shape.wrapped r (fun last =>
      (p.shapes calls table (Shape.width (table r)) [⟨[last], false⟩]).any
        (Shape.allCovered (table r))) S
  | attempt p q, n, S =>
    (p.shapes calls table n S).bind fun T => (q.shapes calls table n S).map (Shape.merge T)
  | resume p, n, S => p.shapes calls table n S
  | call phrase, n, S => some (S.flatMap fun s => (calls phrase).map (s.append n)).dedup

/-! ### Runs without recovery -/

section Runs

/-- The parts of a node are as the table says. -/
def Tabled (tokens : List Token) (table : Rule → List Shape) (rule : Rule)
    (parts : List Tree) : Prop :=
  Shape.FitsAny tokens (table rule) parts

/-- The trees behind those that were there before are as one of the shapes says, and the
parts of all nodes are as the table says. -/
structure State.Shaped (tokens : List Token) (table : Rule → List Shape) (base : List Tree)
    (S : List Shape) (s : State (List Tree)) : Prop where
  ahead : s.ahead <:+ significant tokens
  parts : ∃ added, s.built = base ++ added ∧ Shape.FitsAny tokens S added
  every : ∀ t ∈ s.built, t.Every (Tabled tokens table)

/-- What is left of a run without recovery has the shapes; no statement is given up. -/
def Outcome.Shaped (tokens : List Token) (table : Rule → List Shape) (base : List Tree)
    (S : List Shape) : Outcome (List Tree) → Prop
  | .finished s => s.Shaped tokens table base S
  | .aborted why _ => why ≠ .resync

variable {c : Context} {tokens : List Token} {calls : Phrase → List Shape}
  {table : Rule → List Shape} {base : List Tree} {S T : List Shape} {r : Reaction}
  {s s' u v : State (List Tree)}

namespace State.Shaped

/-- Only the tokens ahead and what was built matter. -/
theorem of_eq (h : s.Shaped tokens table base S) (hahead : s'.ahead = s.ahead)
    (hbuilt : s'.built = s.built) : s'.Shaped tokens table base S :=
  ⟨hahead ▸ h.ahead, hbuilt ▸ h.parts, hbuilt ▸ h.every⟩

theorem mono (h : s.Shaped tokens table base S)
    (hST : ∀ {ts}, Shape.FitsAny tokens S ts → Shape.FitsAny tokens T ts) :
    s.Shaped tokens table base T := by
  obtain ⟨added, hbuilt, hfits⟩ := h.parts
  exact ⟨h.ahead, ⟨added, hbuilt, hST hfits⟩, h.every⟩

/-- A part is added. -/
theorem concat (n : Nat) (h : s.Shaped tokens table base S) {p : PartShape} {t : Tree}
    (hahead : s'.ahead <:+ significant tokens) (hbuilt : s'.built = s.built ++ [t])
    (ht : p.Fits tokens t)
    (hevery : t.Every (Tabled tokens table)) :
    s'.Shaped tokens table base (S.map (·.push n p)).dedup := by
  obtain ⟨added, hadded, hfits⟩ := h.parts
  refine ⟨hahead, ⟨added ++ [t], ?_, hfits.map fun s hs => hs.push n ht⟩, ?_⟩
  · rw [hbuilt, hadded, List.append_assoc]
  · intro w hw
    rw [hbuilt] at hw
    rcases List.mem_append.1 hw with hw | hw
    · exact h.every w hw
    · rw [List.mem_singleton.1 hw]
      exact hevery

theorem consume (n : Nat) (h : s.Shaped tokens table base S) {p : PartShape}
    (hp : p.Fits tokens (.token (s.current c).index)) :
    (s.consume c).Shaped tokens table base (S.map (·.push n p)).dedup :=
  h.concat n ((s.consume_suffix c).trans h.ahead) rfl hp (.token _)

/-- A required token has the required kind. -/
theorem fits_expected (h : s.Shaped tokens table base S) (htokens : Listed tokens)
    (hc : c.ending.isEof = true) {kind : TokenKind} (hkind : kind ≠ .eof)
    (hfound : c.kindAt s.ahead 0 = kind) :
    (PartShape.token (some kind)).Fits tokens (.token (s.current c).index) := by
  obtain ⟨t, ts, hahead, ht⟩ := exists_cons_of_kindAt (beq_iff_eq.1 hc) hkind hfound
  have hcurrent : s.current c = t := by
    rw [State.current, Context.peek, hahead]
    rfl
  have hmem : t ∈ significant tokens := h.ahead.subset (hahead ▸ List.mem_cons_self)
  refine ⟨_, rfl, ?_⟩
  rintro _ ⟨⟩
  rw [hcurrent]
  exact ⟨t, htokens.getElem?_index (List.mem_filter.1 hmem).1, ht⟩

end State.Shaped

theorem Outcome.Shaped.mono {o : Outcome (List Tree)} (h : o.Shaped tokens table base S)
    (hST : S ⊆ T) : o.Shaped tokens table base T := by
  cases o with
  | finished u => exact State.Shaped.mono h fun hfits => hfits.mono hST
  | aborted why u => exact h

/-- What a phrase starts with. -/
theorem State.Shaped.call (h : s.Shaped tokens table base S) :
    s.Shaped tokens table s.built [.empty] where
  ahead := h.ahead
  parts := ⟨[], (List.append_nil _).symm, .empty, List.mem_singleton_self _, Shape.fits_empty⟩
  every := h.every

/-- The inside of a node before its first part. -/
theorem State.Shaped.enter (h : s.Shaped tokens table base S) (rule : Rule) :
    (s.enter c rule).Shaped tokens table [] [.empty] where
  ahead := h.ahead
  parts := ⟨[], rfl, .empty, List.mem_singleton_self _, Shape.fits_empty⟩
  every _ ht := absurd ht List.not_mem_nil

/-- A node is closed whose parts are as the table says. -/
theorem State.Shaped.leave (n : Nat) (h : s.Shaped tokens table base S) {rule : Rule}
    (hv : v.Shaped tokens table [] T) (hcovered : Shape.allCovered (table rule) T = true) :
    (State.leave c rule s v).Shaped tokens table base (S.map (·.push n (.node rule))).dedup := by
  obtain ⟨added, hadded, hfits⟩ := hv.parts
  refine h.concat n hv.ahead rfl rfl (.node _ _ ?_ hv.every)
  rw [hadded, List.nil_append]
  exact hfits.of_covered hcovered

/-- The inside of a node that is opened around the last part, and what is left when it is
closed with parts that are as the table says. -/
theorem State.Shaped.around (h : s.Shaped tokens table base S) {rule : Rule}
    {inside : PartShape → Bool} (hT : Shape.wrapped rule inside S = some T) :
    ∃ last, inside last = true ∧
      (s.enterAround c rule).Shaped tokens table [] [⟨[last], false⟩] ∧
      ∀ (v : State (List Tree)) (R : List Shape), v.Shaped tokens table [] R →
        Shape.allCovered (table rule) R = true →
          (State.leaveAround c rule s v).Shaped tokens table base T := by
  obtain ⟨added, hadded, shape, hshape, hfits⟩ := h.parts
  obtain ⟨last, shape', haround, hlast, hmem⟩ := Shape.wrapped_eq_some hshape hT
  obtain ⟨front, t, rfl, ht, hclosed⟩ := hfits.around? haround
  rw [← List.append_assoc] at hadded
  have hopened : (s.enterAround c rule).built = [t] := by
    show s.built.getLast?.toList = [t]
    rw [hadded, List.getLast?_concat]
    rfl
  refine ⟨last, hlast, ⟨h.ahead, ⟨[t], hopened, _, List.mem_singleton_self _, ?_⟩, ?_⟩, ?_⟩
  · exact ⟨ht, .inr rfl⟩
  · intro w hw
    rw [hopened, List.mem_singleton] at hw
    exact h.every w (by simp [hadded, hw])
  · intro v R hv hcovered
    obtain ⟨parts, hparts, hpartsFit⟩ := hv.parts
    have hleft : (State.leaveAround c rule s v).built = base ++ (front ++
        [.closed rule (Tree.firstAround (s.current c).index s.built) v.last v.built]) := by
      show s.built.dropLast ++ [_] = _
      rw [hadded, List.dropLast_concat, List.append_assoc]
    refine ⟨hv.ahead, ⟨_, hleft, shape', hmem, hclosed _ rfl⟩, fun w hw => ?_⟩
    rw [hleft, ← List.append_assoc] at hw
    rcases List.mem_append.1 hw with hw | hw
    · exact h.every w (by rw [hadded]; exact List.mem_append_left _ hw)
    · rw [List.mem_singleton.1 hw]
      refine .node _ _ ?_ hv.every
      rw [hparts, List.nil_append]
      exact hpartsFit.of_covered hcovered

/-- What a phrase added is added. -/
theorem State.Shaped.append (n : Nat) (h : s.Shaped tokens table base S)
    (hu : u.Shaped tokens table s.built T) :
    u.Shaped tokens table base (S.flatMap fun shape => T.map (shape.append n)).dedup := by
  obtain ⟨added, hadded, shape, hshape, hfits⟩ := h.parts
  obtain ⟨added', hadded', shape', hshape', hfits'⟩ := hu.parts
  refine ⟨hu.ahead, ⟨added ++ added', ?_, shape.append n shape', ?_, hfits.append n hfits'⟩,
    hu.every⟩
  · rw [hadded', hadded, List.append_assoc]
  · rw [List.mem_dedup, List.mem_flatMap]
    exact ⟨shape, hshape, List.mem_map_of_mem hshape'⟩

/-- A required token is added, or the run is given up for a reason other than a recovery. -/
theorem State.Shaped.expect (n : Nat) (h : s.Shaped tokens table base S) (htokens : Listed tokens)
    (hc : c.ending.isEof = true) (hr : r ≠ .recover) {kind : TokenKind} (hkind : kind ≠ .eof) :
    (s.expect c r kind).Shaped tokens table base (S.map (·.push n (.token (some kind)))).dedup := by
  have hfollows := s.expect_follows c r kind
  cases ho : s.expect c r kind with
  | finished u =>
      obtain ⟨hfound, rfl⟩ := expect_finished hr ho
      have hnoted : State.Shaped tokens table base S { s with
        expected := noteKind s.expected kind } := h.of_eq rfl rfl
      exact hnoted.consume n (hnoted.fits_expected htokens hc hkind hfound)
  | aborted why u => exact ne_resync_of_stopsFor hr (hfollows.stops why u ho)

theorem State.Shaped.refuse (hr : r ≠ .recover) (why : Refusal) :
    (s.refuse c r why).Shaped tokens table base S := by
  have hfollows := s.refuse_follows c r why
  cases ho : s.refuse c r why with
  | finished u => exact absurd ho (s.refuse_ne_finished c r why u)
  | aborted why' u => exact ne_resync_of_stopsFor hr (hfollows.stops why' u ho)

/-- What a program adds is as its shapes say, when what phrases add is. -/
theorem Evaluates.shaped (htokens : Listed tokens) (hc : c.ending.isEof = true)
    (hcalls : ∀ phrase, ((grammar phrase).shapes calls table (Shape.width (calls phrase))
      [.empty]).any (Shape.allCovered (calls phrase)) = true)
    {p : Fragment} {o : Outcome (List Tree)} (h : Evaluates c grammar r p s o) :
    r ≠ .recover → ∀ (base : List Tree) (n : Nat) (S T : List Shape),
      p.shapes calls table n S = some T → s.Shaped tokens table base S →
        o.Shaped tokens table base T := by
  induction h with
  | done =>
      rintro _ base n S T ⟨⟩ hs
      exact hs
  | advance =>
      rintro _ base n S T ⟨⟩ hs
      exact hs.consume n ⟨_, rfl, fun k hk => nomatch hk⟩
  | @expect r s kind =>
      intro hr base n S T hT hs
      rw [Program.shapes] at hT
      split at hT
      case isTrue => cases hT
      case isFalse hkind =>
        cases hT
        exact hs.expect n htokens hc hr hkind
  | @refuse r s why => exact fun hr base n S T _ _ => State.Shaped.refuse hr why
  | seq _ _ ih ih' =>
      intro hr base n S T hT hs
      obtain ⟨M, hM, hT⟩ := Option.bind_eq_some_iff.1 hT
      exact ih' hr base n M T hT (ih hr base n S M hM hs)
  | seqAborted _ ih =>
      intro hr base n S T hT hs
      obtain ⟨M, hM, -⟩ := Option.bind_eq_some_iff.1 hT
      exact ih hr base n S M hM hs
  | condTrue _ _ ih =>
      intro hr base n S T hT hs
      obtain ⟨M, hM, hT⟩ := Option.bind_eq_some_iff.1 hT
      obtain ⟨M', -, rfl⟩ := Option.map_eq_some_iff.1 hT
      exact (ih hr base n S M hM (hs.of_eq rfl rfl)).mono Shape.subset_merge_left
  | condFalse _ _ ih =>
      intro hr base n S T hT hs
      obtain ⟨M, -, hT⟩ := Option.bind_eq_some_iff.1 hT
      obtain ⟨M', hM', rfl⟩ := Option.map_eq_some_iff.1 hT
      exact (ih hr base n S M' hM' (hs.of_eq rfl rfl)).mono Shape.subset_merge_right
  | loopStop _ =>
      intro hr base n S T hT hs
      exact (hs.mono fun hfits => hfits.rounds hT).of_eq rfl rfl
  | loopNext _ _ _ ih ih' =>
      intro hr base n S T hT hs
      -- the shapes of a loop are closed under a round, so the rest of the loop has them again
      obtain ⟨R, hR, hsub⟩ := Shape.rounds_eq_some hT
      have hstart := hs.mono fun hfits => hfits.rounds hT
      have hround := ih hr base n T R hR (hstart.of_eq rfl rfl)
      exact ih' hr base n T T (Shape.rounds_of_closed hR hsub) (hround.mono hsub)
  | loopAborted _ _ ih =>
      intro hr base n S T hT hs
      obtain ⟨R, hR, -⟩ := Shape.rounds_eq_some hT
      have hstart := hs.mono fun hfits => hfits.rounds hT
      exact ih hr base n T R hR (hstart.of_eq rfl rfl)
  | @node r s rule p o _ ih =>
      intro hr base n S T hT hs
      rw [Program.shapes] at hT
      split at hT
      case isFalse => cases hT
      case isTrue hbody =>
        cases hT
        obtain ⟨R, hR, hcovered⟩ := (Option.any_eq_true _ _).1 hbody
        have hinside := ih hr [] _ _ R hR (hs.enter rule)
        cases o with
        | finished v => exact hs.leave n hinside hcovered
        | aborted why v => exact hinside
  | @wrap r s rule p o _ ih =>
      intro hr base n S T hT hs
      -- the last part was taken off and is the first one inside
      obtain ⟨last, hbody, hopened, hclosed⟩ := hs.around hT
      obtain ⟨R, hR, hcovered⟩ := (Option.any_eq_true _ _).1 hbody
      have hinside := ih hr [] _ _ R hR hopened
      cases o with
      | finished v => exact hclosed v R hinside hcovered
      | aborted why v => exact hinside
  | attempt _ ih =>
      intro _ base n S T hT hs
      obtain ⟨M, hM, hT⟩ := Option.bind_eq_some_iff.1 hT
      obtain ⟨M', -, rfl⟩ := Option.map_eq_some_iff.1 hT
      exact (ih (by decide) base n S M hM hs).mono Shape.subset_merge_left
  | attemptUndone _ _ _ ih =>
      intro hr base n S T hT hs
      obtain ⟨M, -, hT⟩ := Option.bind_eq_some_iff.1 hT
      obtain ⟨M', hM', rfl⟩ := Option.map_eq_some_iff.1 hT
      exact (ih hr base n S M' hM' (hs.of_eq rfl rfl)).mono Shape.subset_merge_right
  | resume _ _ ih => exact ih
  | resumeSkipped _ _ ih =>
      intro hr base n S T hT hs
      exact absurd rfl (ih hr base n S T hT hs)
  | @call r s phrase o _ ih =>
      rintro hr base n S T ⟨⟩ hs
      obtain ⟨R, hR, hcovered⟩ := (Option.any_eq_true _ _).1 (hcalls phrase)
      have hphrase := ih hr s.built _ _ R hR hs.call
      cases o with
      | finished v =>
          exact hs.append n (State.Shaped.mono hphrase fun hfits => hfits.of_covered hcovered)
      | aborted why v => exact hphrase

end Runs

end Grammar

end MySqlAnalysis
