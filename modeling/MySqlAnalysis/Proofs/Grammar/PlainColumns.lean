import MySqlAnalysis.Proofs.Grammar.ExpressionShapes
import MySqlAnalysis.Proofs.Reference.Scope
import MySqlAnalysis.Proofs.Tree.Inside

/-!
# Expressions that are nothing but a column

A node of most rules has more leaves than any column in it, since it has a token of its
own or a part that has one (`PartShape.outweighs`). So an expression with no more leaves
than a column in it has no other parts on the way to that column, and this way is the
only one that the shapes of nodes allow (`Located.plainColumn?_of_leaves`). The test for a
truth value behind an expression is told apart (`Tree.truthTest`).
-/

set_option autoImplicit false

namespace MySqlAnalysis

open Grammar

namespace Grammar

/-- Whether a part of the shape has leaves, and more of them than any column in it, as can
be told from the shapes of nodes down to `n` levels below it. -/
def PartShape.outweighs : (n : Nat) → PartShape → Bool
  | _, token _ => true
  | 0, node _ => false
  | n + 1, node r => r != .columnRef && (ruleShapes r).all fun s => s.parts.any (outweighs n)
  | _, other => false

/-- Whether a node of the shape has a part that outweighs the columns in it. -/
def Shape.outweighs (s : Shape) : Bool :=
  s.parts.any (PartShape.outweighs 6)

end Grammar

variable {tokens : List Token} {t part column : Tree} {address : Address}

theorem Grammar.Shape.FitsParts.exists_mem {more : Bool} {ps : List PartShape} {ts : List Tree}
    (h : Shape.FitsParts tokens more ps ts) {p : PartShape} (hp : p ∈ ps) :
    ∃ t ∈ ts, p.Fits tokens t := by
  induction ps generalizing ts with
  | nil => cases hp
  | cons q ps ih =>
      cases ts with
      | nil => exact h.elim
      | cons t ts =>
          rcases List.mem_cons.1 hp with rfl | hp
          · exact ⟨t, List.mem_cons_self, h.1⟩
          · obtain ⟨u, hu, hfits⟩ := ih h.2 hp
            exact ⟨u, List.mem_cons_of_mem _ hu, hfits⟩

theorem Grammar.exists_getElem?_of_forall₂ {ps : List PartShape} {ts : List Tree}
    (h : List.Forall₂ (PartShape.Fits tokens) ps ts) {k : Nat} (ht : ts[k]? = some t) :
    ∃ p, ps[k]? = some p ∧ p.Fits tokens t := by
  induction h generalizing k with
  | nil => cases ht
  | cons hfits _ ih =>
      cases k with
      | zero =>
          cases ht
          exact ⟨_, rfl, hfits⟩
      | succ k => exact ih ht

theorem Grammar.fits_exactly {ps : List PartShape} {ts : List Tree} :
    (exactly ps).Fits tokens ts ↔ List.Forall₂ (PartShape.Fits tokens) ps ts := by
  induction ps generalizing ts with
  | nil => simp [exactly, Shape.Fits, Shape.FitsParts]
  | cons p ps ih =>
      cases ts with
      | nil => simp [exactly, Shape.Fits, Shape.FitsParts]
      | cons t ts =>
          rw [List.forall₂_cons, ← ih]
          rfl

namespace Tree

/-- The tree has leaves, and more of them than any column in it. -/
structure Outweighs (t : Tree) : Prop where
  pos : 0 < t.leaves.length
  columns : ∀ (address : Address) (column : Tree), t.at? address = some column →
    column.isRule .columnRef = true → column.leaves.length < t.leaves.length

/-- A node has more leaves than a column in one of its parts, if a part outweighs the
columns in it. -/
theorem Outweighs.length_lt (h : part.Outweighs) (hpart : part ∈ t.children)
    (hat : t.at? address = some column) (hne : address ≠ [])
    (hcolumn : column.isRule .columnRef = true) :
    column.leaves.length < t.leaves.length := by
  obtain ⟨below, i, rfl⟩ := (List.eq_nil_or_concat address).resolve_left hne
  rw [List.concat_eq_append, at?_concat] at hat
  obtain ⟨other, hother, hat⟩ := Option.bind_eq_some_iff.1 hat
  have hle := (leaves_sublist hat).length_le
  by_cases heq : part = other
  · subst heq
    exact Nat.lt_of_lt_of_le (h.columns below column hat hcolumn)
      (leaves_sublist_of_mem hpart).length_le
  · have hadd := length_leaves_add_le hpart (List.mem_of_getElem? hother) heq
    have hpos := h.pos
    omega

theorem length_leaves_pos (h : part.Outweighs) (hpart : part ∈ t.children) :
    0 < t.leaves.length :=
  Nat.lt_of_lt_of_le h.pos (leaves_sublist_of_mem hpart).length_le

/-- A leaf has nothing inside. -/
theorem eq_of_at?_token {i : Nat} (h : (token i).at? address = some t) : t = token i := by
  rcases List.eq_nil_or_concat address with rfl | ⟨below, j, rfl⟩
  · cases h
    rfl
  · rw [List.concat_eq_append, at?_concat] at h
    cases h

theorem outweighs_token (i : Nat) : (token i).Outweighs where
  pos := Nat.zero_lt_one
  columns address column hat hcolumn := by
    obtain rfl := eq_of_at?_token hat
    cases hcolumn

/-- A part whose shape says so outweighs the columns in it. -/
theorem outweighs_of_fits {n : Nat} {p : PartShape} (ht : t.Every (Tabled tokens ruleShapes))
    (hfits : p.Fits tokens t) (hp : p.outweighs n = true) : t.Outweighs := by
  induction n generalizing p t with
  | zero =>
      cases p with
      | token kind =>
          obtain ⟨i, rfl, -⟩ := hfits
          exact outweighs_token i
      | node r => cases hp
      | other => cases hp
  | succ n ih =>
      cases p with
      | token kind =>
          obtain ⟨i, rfl, -⟩ := hfits
          exact outweighs_token i
      | node r =>
          rw [PartShape.outweighs, Bool.and_eq_true, bne_iff_ne] at hp
          obtain ⟨s, hs, hparts⟩ := ht.children hfits
          -- a part outweighs the columns in it, and the node is no column itself
          obtain ⟨p, hp', hweighs⟩ := List.any_eq_true.1 (List.all_eq_true.1 hp.2 s hs)
          obtain ⟨part, hpart, hfits'⟩ := hparts.exists_mem hp'
          have hpart' := ih (ht.of_mem hpart) hfits' hweighs
          refine ⟨length_leaves_pos hpart' hpart, fun address column hat hcolumn => ?_⟩
          refine hpart'.length_lt hpart hat ?_ hcolumn
          rintro rfl
          cases hat
          exact hp.1 (Option.some.inj (hfits.symm.trans (isRule_iff.1 hcolumn)))
      | other => cases hp

/-- A node of a shape that says so has more leaves than the columns in its parts. -/
theorem exists_outweighs_of_fits {s : Shape} (ht : t.Every (Tabled tokens ruleShapes))
    (hs : s.Fits tokens t.children) (hweighs : s.outweighs = true) :
    ∃ part ∈ t.children, part.Outweighs := by
  obtain ⟨p, hp, hweighs⟩ := List.any_eq_true.1 hweighs
  obtain ⟨part, hpart, hfits⟩ := hs.exists_mem hp
  exact ⟨part, hpart, outweighs_of_fits (ht.of_mem hpart) hfits hweighs⟩

theorem leaves_eq_of_children {ts : List Tree} (h : t.children = part :: ts) :
    t.leaves = part.leaves ++ leavesAll ts := by
  cases t with
  | token index => cases h
  | skipped index => cases h
  | node rule first last parts =>
      show leavesAll parts = _
      rw [show parts = part :: ts from h, leavesAll]

theorem leaves_eq_of_single (h : t.children = [part]) : t.leaves = part.leaves := by
  rw [leaves_eq_of_children h]
  exact List.append_nil _

end Tree

/-! ### Single parts -/

section PlainColumns

variable {l inner : Located} {r : Rule}

theorem Tree.children_of_single {x : Rule}
    (hfits : (exactly [.node x]).Fits tokens t.children) :
    ∃ part, t.children = [part] ∧ part.rule? = some x := by
  obtain ⟨part, rest, hpart, hrest, hchildren⟩ :=
    List.forall₂_cons_left_iff.1 (fits_exactly.1 hfits)
  rw [List.forall₂_nil_left_iff] at hrest
  subst hrest
  exact ⟨part, hchildren, hpart⟩

/-- A place with a column below it that has all its leaves has a single part, and the column
is in that part. The shapes of the nodes of its rule tell the rule of the part. -/
theorem Located.exists_only? (parts : List Rule) (ht : l.tree.Every (Tabled tokens ruleShapes))
    (hrule : l.tree.rule? = some r)
    (hshapes : ∀ s ∈ ruleShapes r, s.outweighs = true ∨ ∃ x ∈ parts, s = exactly [.node x])
    (hinside : l.Inside inner) (hne : l ≠ inner) (hcolumn : inner.tree.isRule .columnRef = true)
    (hleaves : l.tree.leaves.length ≤ inner.tree.leaves.length) :
    ∃ x ∈ parts, ∃ part, l.only? x = some part ∧ part.Inside inner := by
  obtain ⟨below, haddress, hat⟩ := hinside
  have hbelow : below ≠ [] := by
    rintro rfl
    obtain ⟨address, tree⟩ := inner
    obtain rfl : address = l.address := haddress
    obtain rfl : l.tree = tree := Option.some.inj hat
    exact hne rfl
  obtain ⟨s, hs, hfits⟩ := ht.children hrule
  rcases hshapes s hs with hweighs | ⟨x, hx, rfl⟩
  · -- a node of this shape has more leaves than the column
    obtain ⟨part, hpart, houtweighs⟩ := Tree.exists_outweighs_of_fits ht hfits hweighs
    exact absurd (houtweighs.length_lt hpart hat hbelow hcolumn) (Nat.not_lt.2 hleaves)
  · obtain ⟨part, hchildren, hpart⟩ := Tree.children_of_single hfits
    obtain ⟨rest, i, rfl⟩ := (List.eq_nil_or_concat below).resolve_left hbelow
    rw [List.concat_eq_append] at hat haddress
    rw [Tree.at?_concat, hchildren] at hat
    obtain ⟨other, hother, hat⟩ := Option.bind_eq_some_iff.1 hat
    obtain ⟨rfl, rfl⟩ : i = 0 ∧ part = other := by
      rcases i with _ | i <;> simp at hother
      exact ⟨rfl, hother⟩
    refine ⟨x, hx, ⟨0 :: l.address, part⟩, only?_eq_some.2 ⟨rfl, hchildren, hpart⟩, rest, ?_, hat⟩
    rw [haddress, List.append_assoc]
    rfl

theorem Located.ne_of_rule? (hrule : l.tree.rule? = some r) (hr : r ≠ .columnRef)
    (hcolumn : inner.tree.isRule .columnRef = true) : l ≠ inner := by
  rintro rfl
  exact hr (Option.some.inj (hrule.symm.trans (Tree.isRule_iff.1 hcolumn)))

/-- What an only part has in common with the node around it. -/
theorem Located.of_only?_every (ht : l.tree.Every (Tabled tokens ruleShapes))
    (h : l.only? r = some inner) :
    inner.tree.Every (Tabled tokens ruleShapes) ∧ inner.tree.rule? = some r ∧ l.Inside inner ∧
      inner.tree.leaves = l.tree.leaves := by
  obtain ⟨-, hchildren, hrule⟩ := only?_eq_some.1 h
  obtain ⟨hmem, -⟩ := of_only? h
  exact ⟨ht.of_mem (mem_of_mem_children hmem), hrule, inside_of_mem_children hmem,
    (Tree.leaves_eq_of_single hchildren).symm⟩

/-! ### Plain columns -/

/-- The node of a simple expression that is a column has no other part. -/
theorem Located.find?_columnRef (ht : l.tree.Every (Tabled tokens ruleShapes))
    (hrule : l.tree.rule? = some .simpleExprColumnRef) :
    l.find? .columnRef = l.only? .columnRef := by
  obtain ⟨s, hs, hfits⟩ := ht.children hrule
  obtain rfl : s = exactly [.node .columnRef] := List.mem_singleton.1 hs
  obtain ⟨column, hchildren, hcolumn⟩ := Tree.children_of_single hfits
  simp [find?, only?, children, hchildren, Tree.isRule, hcolumn]

/-- The column of a predicate that is nothing but a column has all its leaves. -/
theorem Located.of_plainColumn? (ht : l.tree.Every (Tabled tokens ruleShapes))
    (h : l.plainColumn? = some inner) :
    inner.tree.isRule .columnRef = true ∧ l.Inside inner ∧ inner.tree.leaves = l.tree.leaves := by
  simp only [plainColumn?, Option.bind_eq_bind, Option.bind_eq_some_iff] at h
  obtain ⟨bits, hbits, simple, hsimple, hcolumn⟩ := h
  obtain ⟨hbitsEvery, -, hbitsInside, hbitsLeaves⟩ := of_only?_every ht hbits
  obtain ⟨hsimpleEvery, hrule, hsimpleInside, hsimpleLeaves⟩ := of_only?_every hbitsEvery hsimple
  rw [find?_columnRef hsimpleEvery hrule] at hcolumn
  obtain ⟨-, hcolumnRule, hinside, hleaves⟩ := of_only?_every hsimpleEvery hcolumn
  exact ⟨Tree.isRule_iff.2 hcolumnRule, (hbitsInside.trans hsimpleInside).trans hinside,
    hleaves.trans (hsimpleLeaves.trans hbitsLeaves)⟩

/-- A predicate with no more leaves than a column in it is nothing but that column. -/
theorem Located.plainColumn?_of_leaves (ht : l.tree.Every (Tabled tokens ruleShapes))
    (hrule : l.tree.rule? = some .predicate) (hinside : l.Inside inner)
    (hcolumn : inner.tree.isRule .columnRef = true)
    (hleaves : l.tree.leaves.length ≤ inner.tree.leaves.length) :
    l.plainColumn? = some inner := by
  obtain ⟨x, hx, bits, hbits, hbitsIn⟩ := exists_only? [.bitExpr] ht hrule (by decide +kernel)
    hinside (ne_of_rule? hrule (by decide) hcolumn) hcolumn hleaves
  obtain rfl := List.mem_singleton.1 hx
  obtain ⟨hbitsEvery, hbitsRule, -, hbitsLeaves⟩ := of_only?_every ht hbits
  rw [← hbitsLeaves] at hleaves
  obtain ⟨x, hx, simple, hsimple, hsimpleIn⟩ := exists_only? [.simpleExprColumnRef] hbitsEvery
    hbitsRule (by decide +kernel) hbitsIn (ne_of_rule? hbitsRule (by decide) hcolumn) hcolumn
    hleaves
  obtain rfl := List.mem_singleton.1 hx
  obtain ⟨hsimpleEvery, hsimpleRule, -, hsimpleLeaves⟩ := of_only?_every hbitsEvery hsimple
  rw [← hsimpleLeaves] at hleaves
  obtain ⟨x, hx, name, hname, hnameIn⟩ := exists_only? [.columnRef] hsimpleEvery hsimpleRule
    (by decide +kernel) hsimpleIn (ne_of_rule? hsimpleRule (by decide) hcolumn) hcolumn hleaves
  obtain rfl := List.mem_singleton.1 hx
  obtain ⟨hnameEvery, hnameRule, -, hnameLeaves⟩ := of_only?_every hsimpleEvery hname
  rw [← hnameLeaves] at hleaves
  -- no column has a column below it
  have heq : name = inner := by
    by_contra hne
    obtain ⟨x, hx, -⟩ := exists_only? [] hnameEvery hnameRule (by decide +kernel) hnameIn hne
      hcolumn hleaves
    cases hx
  rw [plainColumn?, hbits]
  simp only [Option.bind_eq_bind, Option.bind_some, hsimple]
  rw [find?_columnRef hsimpleEvery hsimpleRule, hname, heq]

/-! ### Expressions -/

/-- The leaves of the test for a truth value behind an expression. -/
def Tree.truthTest (t : Tree) : List Nat :=
  if t.isRule .exprIs then leavesAll t.children.tail else []

/-- The shapes of the first parts of the nodes of a rule. -/
def Grammar.firsts (r : Rule) : List PartShape :=
  (ruleShapes r).map fun s => s.parts.headD .other

/-- The rule of the nodes of a shape. -/
def Grammar.PartShape.rule? : PartShape → Option Rule
  | node r => some r
  | _ => none

theorem Grammar.PartShape.Fits.rule? {p : PartShape} (h : p.Fits tokens t) (hp : p ≠ .other) :
    p.rule? = t.rule? := by
  cases p with
  | token kind =>
      obtain ⟨i, rfl, -⟩ := h
      rfl
  | node r => exact h.symm
  | other => exact absurd rfl hp

theorem Located.exists_firsts (ht : l.tree.Every (Tabled tokens ruleShapes))
    (hrule : l.tree.rule? = some r) (h : l.child? 0 = some inner) :
    ∃ p ∈ firsts r, p.Fits tokens inner.tree := by
  obtain ⟨s, hs, hfits⟩ := ht.children hrule
  obtain ⟨-, hchild⟩ := child?_eq_some.1 h
  refine ⟨_, List.mem_map_of_mem hs, ?_⟩
  obtain ⟨ps, more⟩ := s
  cases ps with
  | nil => trivial
  | cons p ps =>
      cases hchildren : l.tree.children with
      | nil =>
          rw [hchildren] at hchild
          cases hchild
      | cons t ts =>
          rw [hchildren] at hfits hchild
          cases hchild
          exact hfits.1

/-- The parts of an expression with an optional test for a truth value. -/
theorem Tree.exists_children_of_exprIs (ht : t.Every (Tabled tokens ruleShapes))
    (hrule : t.rule? = some .exprIs) :
    ∃ first tests, t.children = first :: tests ∧ (∃ x ∈ primaryRules, first.rule? = some x) ∧
      ∀ u ∈ tests, ∃ i, u = .token i := by
  have hshapes : ∀ s ∈ ruleShapes .exprIs, s.more = false ∧
      (∃ x ∈ primaryRules, s.parts.head? = some (.node x)) ∧
        ∀ p ∈ s.parts.tail, p = someToken := by decide +kernel
  obtain ⟨⟨ps, more⟩, hs, hfits⟩ := ht.children hrule
  obtain ⟨rfl, ⟨x, hx, hhead⟩, htail⟩ := hshapes _ hs
  obtain ⟨ps, rfl⟩ := List.head?_eq_some_iff.1 hhead
  obtain ⟨first, tests, hfirst, htests, hchildren⟩ :=
    List.forall₂_cons_left_iff.1 (fits_exactly.1 hfits)
  refine ⟨first, tests, hchildren, ⟨x, hx, hfirst⟩, fun u hu => ?_⟩
  obtain ⟨k, hk⟩ := List.mem_iff_getElem?.1 hu
  obtain ⟨p, hp, hfits⟩ := exists_getElem?_of_forall₂ htests hk
  obtain rfl := htail p (List.mem_of_getElem? hp)
  obtain ⟨i, rfl, -⟩ := hfits
  exact ⟨i, rfl⟩

/-- The leaves of an expression are those of its first part and those of the test. -/
theorem Tree.leaves_of_exprIs {first : Tree} {tests : List Tree} (hrule : t.rule? = some .exprIs)
    (h : t.children = first :: tests) : t.leaves = first.leaves ++ t.truthTest := by
  rw [leaves_eq_of_children h, truthTest, if_pos (isRule_iff.2 hrule), h]
  rfl

section Items

variable {item expression : Located}

/-- The rules of the first part of a select item. -/
def itemRules : List Rule := .tableWild :: expressionRules

theorem Located.exists_itemRule (ht : item.tree.Every (Tabled tokens ruleShapes))
    (hrule : item.tree.rule? = some .selectItem) (h : item.child? 0 = some expression) :
    ∃ x ∈ itemRules, expression.tree.rule? = some x := by
  have hfirsts : ∀ p ∈ firsts .selectItem, ∃ x ∈ itemRules, p = .node x := by decide +kernel
  obtain ⟨p, hp, hfits⟩ := exists_firsts ht hrule h
  obtain ⟨x, hx, rfl⟩ := hfirsts p hp
  exact ⟨x, hx, hfits⟩

/-- The only way from a select item by first parts to a predicate. -/
theorem Located.rules_of_predicate {first predicate : Located} {x : Rule} (hx : x ∈ itemRules)
    (ht : expression.tree.Every (Tabled tokens ruleShapes))
    (hrule : expression.tree.rule? = some x) (hfirst : expression.child? 0 = some first)
    (hpredicate : first.child? 0 = some predicate)
    (hpredicateRule : predicate.tree.rule? = some .predicate) :
    x = .exprIs ∧ first.tree.rule? = some .primaryExprPredicate := by
  have hfirsts : ∀ x ∈ itemRules, ∀ p ∈ firsts x, p ≠ .other ∧ ∀ y ∈ p.rule?, ∀ q ∈ firsts y,
      q ≠ .other ∧ (q.rule? = some .predicate → x = .exprIs ∧ y = .primaryExprPredicate) := by
    decide +kernel
  obtain ⟨p, hp, hfits⟩ := exists_firsts ht hrule hfirst
  obtain ⟨hother, hpart⟩ := hfirsts x hx p hp
  -- the first part has a part, so it is a node
  obtain ⟨y, hy⟩ : ∃ y, first.tree.rule? = some y := by
    obtain ⟨-, hchild⟩ := child?_eq_some.1 hpredicate
    cases htree : first.tree with
    | node y first last parts => exact ⟨y, rfl⟩
    | _ =>
        rw [htree] at hchild
        cases hchild
  obtain ⟨-, hchild⟩ := child?_eq_some.1 hfirst
  have hfirstEvery := ht.of_mem (List.mem_of_getElem? hchild)
  obtain ⟨q, hq, hfits'⟩ := exists_firsts hfirstEvery hy hpredicate
  obtain ⟨hother', hqrule⟩ := hpart y ((hfits.rule? hother).trans hy) q hq
  obtain ⟨hx, rfl⟩ := hqrule ((hfits'.rule? hother').trans hpredicateRule)
  exact ⟨hx, hy⟩

/-- A column in an expression is not in the test behind it. -/
theorem Located.inside_first {first : Tree} {tests : List Tree}
    (hrule : expression.tree.rule? = some .exprIs)
    (hchildren : expression.tree.children = first :: tests)
    (htests : ∀ u ∈ tests, ∃ i, u = .token i) (hinside : expression.Inside inner)
    (hcolumn : inner.tree.isRule .columnRef = true) :
    Located.Inside ⟨0 :: expression.address, first⟩ inner := by
  obtain ⟨below, haddress, hat⟩ := hinside
  rcases List.eq_nil_or_concat below with rfl | ⟨rest, i, rfl⟩
  · have heq : expression.tree = inner.tree := Option.some.inj hat
    rw [Tree.isRule, ← heq, hrule] at hcolumn
    cases hcolumn
  · rw [List.concat_eq_append] at haddress hat
    rw [Tree.at?_concat, hchildren] at hat
    obtain ⟨part, hpart, hat⟩ := Option.bind_eq_some_iff.1 hat
    cases i with
    | zero =>
        cases hpart
        exact ⟨rest, by rw [haddress, List.append_assoc]; rfl, hat⟩
    | succ i =>
        obtain ⟨k, rfl⟩ := htests part (List.mem_of_getElem? hpart)
        rw [Tree.eq_of_at?_token hat] at hcolumn
        cases hcolumn

/-- A node of a rule that outweighs the columns in it has more leaves than any of them. -/
theorem Located.not_outweighs (ht : l.tree.Every (Tabled tokens ruleShapes))
    (hrule : l.tree.rule? = some r) (hinside : l.Inside inner)
    (hcolumn : inner.tree.isRule .columnRef = true) (hleaves : l.tree.leaves = inner.tree.leaves) :
    (PartShape.node r).outweighs 6 ≠ true := by
  intro hweighs
  obtain ⟨below, -, hat⟩ := hinside
  have hlt := (Tree.outweighs_of_fits (p := .node r) ht hrule hweighs).columns below _ hat hcolumn
  rw [hleaves] at hlt
  exact Nat.lt_irrefl _ hlt

/-- The column that an expression is, but for a test for a truth value, is found from it by
first parts. -/
theorem Located.exists_predicate (hrule : expression.tree.rule? = some r) (hr : r ∈ itemRules)
    (ht : expression.tree.Every (Tabled tokens ruleShapes)) (hinside : expression.Inside inner)
    (hcolumn : inner.tree.isRule .columnRef = true)
    (hleaves : expression.tree.leaves = inner.tree.leaves ++ expression.tree.truthTest) :
    ∃ first predicate, expression.child? 0 = some first ∧ first.child? 0 = some predicate ∧
      predicate.tree.isRule .predicate = true ∧ predicate.plainColumn? = some inner := by
  have hweighs : ∀ x ∈ itemRules, x ≠ .exprIs → (PartShape.node x).outweighs 6 = true := by
    decide +kernel
  have hprimary : ∀ y ∈ primaryRules, y ≠ .primaryExprPredicate →
      (PartShape.node y).outweighs 6 = true := by decide +kernel
  -- an expression of any other rule has more leaves than the column in it
  have hexprIs : r = .exprIs := by
    by_contra hne
    have htest : expression.tree.truthTest = [] := by
      rw [Tree.truthTest, if_neg]
      rw [Tree.isRule_iff, hrule]
      simpa using hne
    rw [htest, List.append_nil] at hleaves
    exact not_outweighs ht hrule hinside hcolumn hleaves (hweighs r hr hne)
  subst hexprIs
  obtain ⟨first, tests, hchildren, ⟨y, hy, hfirst⟩, htests⟩ :=
    Tree.exists_children_of_exprIs ht hrule
  rw [Tree.leaves_of_exprIs hrule hchildren, List.append_cancel_right_eq] at hleaves
  have hfirstEvery : first.Every (Tabled tokens ruleShapes) :=
    ht.of_mem (hchildren ▸ List.mem_cons_self)
  have hinside := inside_first hrule hchildren htests hinside hcolumn
  -- and so has a primary expression that is no predicate
  have hpredicate : y = .primaryExprPredicate := by
    by_contra hne
    exact not_outweighs hfirstEvery hfirst hinside hcolumn hleaves (hprimary y hy hne)
  subst hpredicate
  obtain ⟨z, hz, predicate, hpredicate, hinside⟩ := exists_only? [.predicate] hfirstEvery hfirst
    (by decide +kernel) hinside (ne_of_rule? hfirst (by decide) hcolumn) hcolumn
    (Nat.le_of_eq (congrArg List.length hleaves))
  obtain rfl := List.mem_singleton.1 hz
  obtain ⟨hevery, hpredicateRule, -, hsame⟩ := of_only?_every hfirstEvery hpredicate
  obtain ⟨hplace, honly, -⟩ := only?_eq_some.1 hpredicate
  refine ⟨_, predicate, child?_eq_some.2 ⟨rfl, hchildren ▸ rfl⟩,
    child?_eq_some.2 ⟨hplace, honly ▸ rfl⟩, Tree.isRule_iff.2 hpredicateRule, ?_⟩
  exact plainColumn?_of_leaves hevery hpredicateRule hinside hcolumn
    (Nat.le_of_eq (congrArg List.length (hsame.trans hleaves)))

/-- The only part of a predicate without comparisons behind it. -/
theorem Tree.children_of_primary (ht : t.Every (Tabled tokens ruleShapes))
    (hrule : t.rule? = some .primaryExprPredicate) : ∃ predicate, t.children = [predicate] := by
  obtain ⟨s, hs, hfits⟩ := ht.children hrule
  obtain rfl : s = exactly [.node .predicate] := List.mem_singleton.1 hs
  obtain ⟨predicate, hchildren, -⟩ := children_of_single hfits
  exact ⟨predicate, hchildren⟩

/-- What is found from an expression by first parts has its leaves, but for those of a test
for a truth value. -/
theorem Located.leaves_of_predicate {first predicate : Located}
    (ht : expression.tree.Every (Tabled tokens ruleShapes))
    (hrule : expression.tree.rule? = some .exprIs) (hfirst : expression.child? 0 = some first)
    (hfirstRule : first.tree.rule? = some .primaryExprPredicate)
    (hpredicate : first.child? 0 = some predicate) :
    expression.tree.leaves = predicate.tree.leaves ++ expression.tree.truthTest := by
  obtain ⟨-, hchild⟩ := child?_eq_some.1 hfirst
  obtain ⟨-, hchild'⟩ := child?_eq_some.1 hpredicate
  obtain ⟨inside, hinside⟩ :=
    Tree.children_of_primary (ht.of_mem (List.mem_of_getElem? hchild)) hfirstRule
  obtain ⟨first', tests, hchildren, -⟩ := Tree.exists_children_of_exprIs ht hrule
  rw [hchildren] at hchild
  cases hchild
  rw [hinside] at hchild'
  cases hchild'
  rw [Tree.leaves_of_exprIs hrule hchildren, Tree.leaves_eq_of_single hinside]

/-- The column of a select item is the column in its expression that has all leaves of the
expression but those of a test for a truth value. -/
theorem Site.itemColumn?_iff {s : Site} (hitem : s.parent? = some item)
    (hrule : item.tree.rule? = some .selectItem)
    (ht : item.tree.Every (Tabled tokens ruleShapes))
    (hexpression : item.child? 0 = some expression) :
    s.itemColumn? = some inner ↔ inner.tree.isRule .columnRef = true ∧
      expression.Inside inner ∧
        expression.tree.leaves = inner.tree.leaves ++ expression.tree.truthTest := by
  obtain ⟨x, hx, hxRule⟩ := Located.exists_itemRule ht hrule hexpression
  have hevery : expression.tree.Every (Tabled tokens ruleShapes) :=
    ht.of_mem (List.mem_of_getElem? (Located.child?_eq_some.1 hexpression).2)
  simp only [itemColumn?, Option.bind_eq_bind, hitem, Option.bind_some, hexpression,
    Option.bind_eq_some_iff]
  constructor
  · rintro ⟨first, hfirst, predicate, hpredicate, h⟩
    split at h
    · next hpredicateRule =>
      obtain ⟨rfl, hfirstRule⟩ := Located.rules_of_predicate hx hevery hxRule hfirst hpredicate
        (Tree.isRule_iff.1 hpredicateRule)
      have hfirstIn := Located.inside_of_child? hfirst
      have hpredicateIn := Located.inside_of_child? hpredicate
      obtain ⟨hcolumn, hinside, hleaves⟩ :=
        Located.of_plainColumn? (hpredicateIn.every (hfirstIn.every hevery)) h
      refine ⟨hcolumn, (hfirstIn.trans hpredicateIn).trans hinside, ?_⟩
      rw [hleaves, Located.leaves_of_predicate hevery hxRule hfirst hfirstRule hpredicate]
    · cases h
  · rintro ⟨hcolumn, hinside, hleaves⟩
    obtain ⟨first, predicate, hfirst, hpredicate, hpredicateRule, hplain⟩ :=
      Located.exists_predicate hxRule hx hevery hinside hcolumn hleaves
    exact ⟨first, hfirst, predicate, hpredicate, by rw [if_pos hpredicateRule, hplain]⟩

end Items

end PlainColumns

end MySqlAnalysis
