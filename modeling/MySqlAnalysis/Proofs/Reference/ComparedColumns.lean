import MySqlAnalysis.Proofs.Grammar.PlainColumns
import MySqlAnalysis.Proofs.Reference.Recorded

/-!
# Columns that operands are compared with

The search for the column of an operand climbs through nodes that have the operand as
their first part. The shapes of these nodes leave two ways for it to end well
(`Collector.comparedColumn?_operand`): the operand is right of a comparison whose left
side is nothing but a column, or it is what a column is set to, a test for a truth value
behind it not counted.
-/

set_option autoImplicit false

namespace MySqlAnalysis

open Grammar

variable {tokens : List Token} {root : Tree} {a l part operand column : Located}
  {above : List Located} {r x : Rule}

/-! ### Positions of parts -/

/-- The positions at which nodes of the first rule have parts of the second one, as the
shapes of the first rule tell. -/
def Grammar.positions (r x : Rule) : List Nat :=
  (ruleShapes r).flatMap fun s =>
    s.parts.zipIdx.filterMap fun p => if p.1.rule? = some x then some p.2 else none

/-- All parts of nodes of the rule are told by its shapes. -/
def Grammar.tellsParts (r : Rule) : Bool :=
  (ruleShapes r).all fun s => !s.more && s.parts.all (· != .other)

theorem Located.exists_position (ha : a.tree.Every (Tabled tokens ruleShapes))
    (hrule : a.tree.rule? = some r) (htells : tellsParts r = true) (hpart : part ∈ a.children)
    (hx : part.tree.rule? = some x) : ∃ k ∈ positions r x, a.child? k = some part := by
  obtain ⟨k, haddress, hchild⟩ := mem_children_iff.1 hpart
  obtain ⟨⟨ps, more⟩, hs, hfits⟩ := ha.children hrule
  have htells := List.all_eq_true.1 htells _ hs
  simp only [Bool.and_eq_true, Bool.not_eq_true', List.all_eq_true, bne_iff_ne] at htells
  obtain ⟨rfl, hother⟩ := htells
  obtain ⟨p, hp, hfits⟩ := exists_getElem?_of_forall₂ (fits_exactly.1 hfits) hchild
  have hrule := (hfits.rule? (hother p (List.mem_of_getElem? hp))).trans hx
  refine ⟨k, List.mem_flatMap.2 ⟨_, hs, List.mem_filterMap.2 ⟨(p, k), ?_, if_pos hrule⟩⟩,
    child?_eq_some.2 ⟨haddress, hchild⟩⟩
  exact List.mk_mem_zipIdx_iff_getElem?.2 hp

/-- A node of just three parts. -/
theorem Grammar.exists_three {p q r : PartShape} {ts : List Tree}
    (h : (exactly [p, q, r]).Fits tokens ts) :
    ∃ t u v, ts = [t, u, v] ∧ p.Fits tokens t ∧ q.Fits tokens u ∧ r.Fits tokens v := by
  rw [fits_exactly] at h
  simp only [List.forall₂_cons_left_iff, List.forall₂_nil_left_iff] at h
  obtain ⟨t, _, ht, ⟨u, _, hu, ⟨v, _, hv, rfl, rfl⟩, rfl⟩, rfl⟩ := h
  exact ⟨t, u, v, rfl, ht, hu, hv⟩

/-! ### Comparisons and assignments -/

/-- The node compares a column with the operand, which is on the right. -/
structure Located.Compares (a operand column : Located) : Prop where
  rule : a.tree.isRule .primaryExprCompare = true
  right : operand.address = 2 :: a.address
  parts : ∃ left operator : Tree, a.tree.children = [left, operator, operand.tree] ∧
    left.leaves = column.tree.leaves

/-- The node sets its column to the operand, with at most a test for a truth value behind
it. -/
structure Located.Assigns (tokens : List Token) (a operand column : Located) : Prop where
  rule : a.tree.isRule .updateElement = true
  left : column.address = 0 :: a.address
  parts : ∃ (sign : Nat) (value : Tree), a.tree.children = [column.tree, .token sign, value] ∧
    (∃ t, tokens[sign]? = some t ∧ t.kind = .equal) ∧
    value.leaves = operand.tree.leaves ++ value.truthTest

/-- The parts of an assignment. -/
theorem Located.exists_parts_of_assignment (ha : a.tree.Every (Tabled tokens ruleShapes))
    (hrule : a.tree.rule? = some .updateElement) :
    ∃ (name : Tree) (sign : Nat) (value : Tree), a.tree.children = [name, .token sign, value] ∧
      name.rule? = some .columnRef ∧ ∃ t, tokens[sign]? = some t ∧ t.kind = .equal := by
  have hshapes : ∀ s ∈ ruleShapes .updateElement, ∃ p ∈ someToken :: expressionRules.map .node,
      s = exactly [.node .columnRef, .token (some .equal), p] := by decide +kernel
  obtain ⟨s, hs, hfits⟩ := ha.children hrule
  obtain ⟨p, -, rfl⟩ := hshapes s hs
  obtain ⟨name, _, value, hchildren, hname, ⟨sign, rfl, hsign⟩, -⟩ := exists_three hfits
  exact ⟨name, sign, value, hchildren, hname, hsign _ rfl⟩

/-- The parts of a comparison. -/
theorem Located.exists_parts_of_comparison (ha : a.tree.Every (Tabled tokens ruleShapes))
    (hrule : a.tree.rule? = some .primaryExprCompare) {right : Tree}
    (hright : a.tree.children[2]? = some right) :
    ∃ left operator : Tree, a.tree.children = [left, operator, right] := by
  have hshapes : ∀ s ∈ ruleShapes .primaryExprCompare, ∃ x ∈ primaryRules,
      s = exactly [.node x, .node .compOp, .node .predicate] := by decide +kernel
  obtain ⟨s, hs, hfits⟩ := ha.children hrule
  obtain ⟨x, -, rfl⟩ := hshapes s hs
  obtain ⟨left, operator, right', hchildren, -⟩ := exists_three hfits
  rw [hchildren] at hright
  obtain rfl : right' = right := Option.some.inj hright
  exact ⟨left, operator, hchildren⟩

/-! ### The search -/

namespace Collector

variable {c : Collector} {address : Address} {i : Nat}

/-- The rules of the nodes that the search goes through or ends at. -/
def climbedRules : List Rule :=
  [.primaryExprPredicate, .exprIs, .primaryExprCompare, .updateElement]

theorem exists_climbed (h : c.comparedColumn? address (a :: above) = some i) :
    ∃ r ∈ climbedRules, a.tree.rule? = some r := by
  rw [comparedColumn?] at h
  split at h
  · next hrule => exact ⟨_, by decide, hrule⟩
  · next hrule => exact ⟨_, by decide, hrule⟩
  · next hrule => exact ⟨_, by decide, hrule⟩
  · next hrule => exact ⟨_, by decide, hrule⟩
  · cases h

/-- What the search goes through or ends at, and where the operand stands in it. -/
theorem exists_position_of_climbed (hl : Lineage root l (a :: above))
    (hroot : root.Every (Tabled tokens ruleShapes)) (hx : l.tree.rule? = some x)
    (h : c.comparedColumn? address (a :: above) = some i) :
    ∃ r ∈ climbedRules, a.tree.rule? = some r ∧ ∃ k ∈ positions r x, a.child? k = some l := by
  obtain ⟨r, hr, hrule⟩ := exists_climbed h
  obtain ⟨hpart, ha⟩ := hl.of_cons
  have htells : ∀ r ∈ climbedRules, tellsParts r = true := by decide +kernel
  exact ⟨r, hr, hrule, Located.exists_position (ha.every hroot) hrule (htells r hr) hpart hx⟩

/-- From an expression the search ends at an assignment. -/
theorem comparedColumn?_value (hl : Lineage root l (a :: above))
    (hroot : root.Every (Tabled tokens ruleShapes)) (hx : l.tree.rule? = some .exprIs)
    (hleaves : l.tree.leaves = operand.tree.leaves ++ l.tree.truthTest)
    (h : c.comparedColumn? l.address (a :: above) = some i) :
    ∃ column, c.Records root column i ∧ a.Assigns tokens operand column := by
  obtain ⟨r, hr, hrule, k, hk, hchild⟩ := exists_position_of_climbed hl hroot hx h
  obtain ⟨rfl, rfl⟩ : r = .updateElement ∧ k = 2 :=
    (by decide +kernel : ∀ r ∈ climbedRules, ∀ k ∈ positions r .exprIs,
      r = .updateElement ∧ k = 2) r hr k hk
  obtain ⟨-, ha⟩ := hl.of_cons
  obtain ⟨name, sign, value, hchildren, hname, hsign⟩ :=
    Located.exists_parts_of_assignment (ha.every hroot) hrule
  -- the expression is the part behind the sign
  obtain ⟨-, hvalue⟩ := Located.child?_eq_some.1 hchild
  rw [hchildren] at hvalue
  obtain rfl : value = l.tree := Option.some.inj hvalue
  have hcolumn : a.child? 0 = some ⟨0 :: a.address, name⟩ := by
    rw [Located.child?, hchildren]
    rfl
  have hfind : a.find? .columnRef = some ⟨0 :: a.address, name⟩ := by
    simp [Located.find?, Located.children, hchildren, Tree.isRule_iff.2 hname]
  rw [comparedColumn?, hrule] at h
  simp only [hfind, Option.bind_eq_bind, Option.bind_some] at h
  have hplace := (Located.inside_of_child? hcolumn).at? ha.at?
  exact ⟨_, ⟨hplace, Tree.isRule_iff.2 hname, Collected.mem_of_lookup h⟩,
    Tree.isRule_iff.2 hrule, rfl, sign, _, hchildren, hsign, hleaves⟩

/-- From a predicate that nothing is compared with, the search goes on through the
expression that it is. -/
theorem comparedColumn?_primary (hl : Lineage root l above)
    (hroot : root.Every (Tabled tokens ruleShapes)) (hx : l.tree.rule? = some .primaryExprPredicate)
    (hleaves : l.tree.leaves = operand.tree.leaves)
    (h : c.comparedColumn? l.address above = some i) :
    ∃ column, c.Records root column i ∧ ∃ a ∈ above, a.Assigns tokens operand column := by
  cases above with
  | nil => cases h
  | cons a above =>
      obtain ⟨r, hr, hrule, k, hk, hchild⟩ := exists_position_of_climbed hl hroot hx h
      obtain ⟨rfl, rfl | rfl⟩ : k = 0 ∧ (r = .exprIs ∨ r = .primaryExprCompare) :=
        (by decide +kernel : ∀ r ∈ climbedRules, ∀ k ∈ positions r .primaryExprPredicate,
          k = 0 ∧ (r = .exprIs ∨ r = .primaryExprCompare)) r hr k hk
      · -- an expression: what follows the predicate in it is not looked at
        obtain ⟨-, ha⟩ := hl.of_cons
        rw [comparedColumn?, hrule] at h
        dsimp only at h
        cases above with
        | nil => cases h
        | cons b above =>
            obtain ⟨-, hfirst⟩ := Located.child?_eq_some.1 hchild
            obtain ⟨tests, hchildren⟩ : ∃ tests, a.tree.children = l.tree :: tests :=
              List.head?_eq_some_iff.1 (List.head?_eq_getElem?.trans hfirst)
            have hsame : a.tree.leaves = operand.tree.leaves ++ a.tree.truthTest := by
              rw [← hleaves]
              exact Tree.leaves_of_exprIs hrule hchildren
            obtain ⟨column, hrecords, hassigns⟩ := comparedColumn?_value ha hroot hrule hsame h
            exact ⟨column, hrecords, b, by simp, hassigns⟩
      · -- an operand on the left is compared with no column
        rw [comparedColumn?, hrule] at h
        simp [hchild] at h

/-- Right of a comparison the search finds the column that is left of it. -/
theorem comparedColumn?_right (ha : Lineage root a above)
    (hroot : root.Every (Tabled tokens ruleShapes))
    (hrule : a.tree.rule? = some .primaryExprCompare) (hchild : a.child? 2 = some l)
    (h : c.comparedColumn? address (a :: above) = some i) :
    ∃ column, c.Records root column i ∧ a.Compares l column := by
  obtain ⟨haddress, hpart⟩ := Located.child?_eq_some.1 hchild
  obtain ⟨left, operator, hchildren⟩ :=
    Located.exists_parts_of_comparison (ha.every hroot) hrule hpart
  have hleft : a.child? 0 = some ⟨0 :: a.address, left⟩ := by
    rw [Located.child?, hchildren]
    rfl
  have hleftIn := Located.inside_of_child? hleft
  have hleftEvery : left.Every (Tabled tokens ruleShapes) := hleftIn.every (ha.every hroot)
  rw [comparedColumn?, hrule] at h
  simp only [hleft, Option.bind_eq_bind, Option.bind_some] at h
  split at h
  · cases h
  · next hother =>
    have hleftRule : left.rule? = some .primaryExprPredicate := by
      simp only [Bool.or_eq_true, not_or, Bool.not_eq_true', Bool.not_eq_false] at hother
      exact Tree.isRule_iff.1 hother.2
    simp only [Option.bind_eq_some_iff] at h
    obtain ⟨column, ⟨predicate, hpredicate, hplain⟩, hlookup⟩ := h
    have hpredicateIn := Located.inside_of_child? hpredicate
    obtain ⟨hcolumn, hinside, hleaves⟩ :=
      Located.of_plainColumn? (hpredicateIn.every hleftEvery) hplain
    obtain ⟨t, hsingle⟩ := Tree.children_of_primary hleftEvery hleftRule
    obtain ⟨-, hfirst⟩ := Located.child?_eq_some.1 hpredicate
    rw [hsingle] at hfirst
    obtain rfl : t = predicate.tree := Option.some.inj hfirst
    have hsame : left.leaves = column.tree.leaves :=
      (Tree.leaves_eq_of_single hsingle).trans hleaves.symm
    have hplace := ((hleftIn.trans hpredicateIn).trans hinside).at? ha.at?
    exact ⟨column, ⟨hplace, hcolumn, Collected.mem_of_lookup hlookup⟩, Tree.isRule_iff.2 hrule,
      haddress, left, operator, hchildren, hsame⟩

/-- An operand that a column is found for is right of a comparison with that column, or it
is what that column is set to. -/
theorem comparedColumn?_operand (hl : Lineage root l above)
    (hroot : root.Every (Tabled tokens ruleShapes)) (hx : l.tree.rule? = some .predicate)
    (h : c.comparedColumn? l.address above = some i) :
    ∃ column, c.Records root column i ∧
      ∃ a ∈ above, a.Compares l column ∨ a.Assigns tokens l column := by
  cases above with
  | nil => cases h
  | cons a above =>
      obtain ⟨r, hr, hrule, k, hk, hchild⟩ := exists_position_of_climbed hl hroot hx h
      obtain ⟨-, ha⟩ := hl.of_cons
      have haEvery := ha.every hroot
      obtain ⟨haddress, hpart⟩ := Located.child?_eq_some.1 hchild
      have hcases := (by decide +kernel : ∀ r ∈ climbedRules, ∀ k ∈ positions r .predicate,
        (r = .primaryExprPredicate ∧ k = 0) ∨ (r = .primaryExprCompare ∧ k = 2)) r hr k hk
      rcases hcases with ⟨rfl, rfl⟩ | ⟨rfl, rfl⟩
      · -- nothing is compared with the operand yet, and it is all of the node above it
        obtain ⟨predicate, hchildren⟩ := Tree.children_of_primary haEvery hrule
        rw [hchildren] at hpart
        obtain rfl : predicate = l.tree := Option.some.inj hpart
        rw [comparedColumn?, hrule] at h
        obtain ⟨column, hrecords, b, hb, hassigns⟩ :=
          comparedColumn?_primary ha hroot hrule (Tree.leaves_eq_of_single hchildren) h
        exact ⟨column, hrecords, b, List.mem_cons_of_mem _ hb, .inr hassigns⟩
      · obtain ⟨column, hrecords, hcompares⟩ := comparedColumn?_right ha hroot hrule hchild h
        exact ⟨column, hrecords, a, List.mem_cons_self, .inl hcompares⟩

end Collector

/-! ### Texts -/

namespace Config

/-- In a text without a parser error, a predicate that a column is found for is right of a
comparison whose left side has the leaves of that column, or it is in an assignment to that
column: it has all leaves after the equals sign but those of a test for a truth value at the
end. -/
theorem analyze_comparedColumn (c : Config) (start : StartRule) (text : String)
    (herror : (c.analyze start text).diagnostics.parser = none) {before after : List Site}
    {s : Site} (hsites : (c.analyze start text).document.sites = before ++ s :: after)
    (hrule : s.here.tree.isRule .predicate = true) {i : Nat}
    (hcompared : ((c.analyze start text).document.collectedAfter before).comparedColumn?
      s.here.address s.ancestors = some i) :
    ∃ (root : Tree) (column : Located), (c.analyze start text).document.root = some root ∧
      (Collector.ofDocument (c.analyze start text).document).Records root column i ∧
      ∃ a ∈ s.ancestors,
        a.Compares s.here column ∨ a.Assigns (tokenize c.dialect text) s.here column := by
  obtain ⟨root, hroot, hlineage⟩ := Document.sites_lineage
    (hsites ▸ List.mem_append_right before List.mem_cons_self)
  obtain ⟨column, hrecords, a, ha, hways⟩ := Collector.comparedColumn?_operand hlineage
    (c.analyze_shaped start text herror root hroot) (Tree.isRule_iff.1 hrule) hcompared
  exact ⟨root, column, hroot, Document.records_of_before hsites hrecords, a, ha, hways⟩

/-- A literal that a column is set to. -/
theorem analyze_comparedColumn_assigned :
    ∃ document, document = (Config.standard.analyze .query "UPDATE t, u SET a = 1").document ∧
      ∃ s ∈ document.sites, s.here.plainLiteral?.isSome = true ∧
        ∃ (root : Tree) (column : Located), document.root = some root ∧
          (Collector.ofDocument document).Records root column 2 ∧ ∃ a ∈ s.ancestors,
            a.Assigns (tokenize Config.standard.dialect "UPDATE t, u SET a = 1") s.here column := by
  have hfacts : ∃ a, a = Config.standard.analyze .query "UPDATE t, u SET a = 1" ∧
      a.diagnostics.parser = none ∧ (a.document.sites[17]?.any fun s =>
        s.here.tree.isRule .predicate && s.here.plainLiteral?.isSome &&
          (a.document.collectedAfter (a.document.sites.take 17)).comparedColumn? s.here.address
            s.ancestors == some 2 &&
          s.ancestors.all fun b => !b.tree.isRule .primaryExprCompare) = true :=
    ⟨_, rfl, by decide +kernel⟩
  obtain ⟨a, rfl, herror, hsite⟩ := hfacts
  obtain ⟨s, hsites, hsite⟩ := Document.exists_site hsite
  simp only [Bool.and_eq_true, beq_iff_eq] at hsite
  obtain ⟨⟨⟨hrule, hliteral⟩, hcompared⟩, hancestors⟩ := hsite
  obtain ⟨root, column, hroot, hrecords, a, ha, hways⟩ :=
    analyze_comparedColumn .standard .query "UPDATE t, u SET a = 1" herror hsites hrule hcompared
  refine ⟨_, rfl, s, hsites ▸ List.mem_append_right _ List.mem_cons_self, hliteral, root, column,
    hroot, hrecords, a, ha, hways.resolve_left ?_⟩
  intro hcompares
  have hne := List.all_eq_true.1 hancestors a ha
  rw [hcompares.rule] at hne
  cases hne

/-- A literal is also tied to a column that is set to whether the literal is true. -/
theorem analyze_comparedColumn_tested :
    ∃ a, a = Config.standard.analyze .query "UPDATE t, u SET a = 1 IS TRUE" ∧
      a.tokenEvents.isEmpty = true ∧ a.grammarEvents.isEmpty = true ∧
      ∃ before s after, a.document.sites = before ++ s :: after ∧
        s.here.tree.isRule .predicate = true ∧ s.here.plainLiteral?.isSome = true ∧
        (a.document.collectedAfter before).comparedColumn? s.here.address s.ancestors = some 2 ∧
        ∀ b ∈ s.ancestors, b.tree.isRule .primaryExprCompare = false ∧
          (b.tree.isRule .updateElement = true →
            Tree.leavesAll (b.tree.children.drop 2) ≠ s.here.tree.leaves) := by
  have hfacts : ∃ a, a = Config.standard.analyze .query "UPDATE t, u SET a = 1 IS TRUE" ∧
      a.tokenEvents.isEmpty = true ∧ a.grammarEvents.isEmpty = true ∧
      (a.document.sites[17]?.any fun s =>
        s.here.tree.isRule .predicate && s.here.plainLiteral?.isSome &&
          (a.document.collectedAfter (a.document.sites.take 17)).comparedColumn? s.here.address
            s.ancestors == some 2 &&
          decide (∀ b ∈ s.ancestors, b.tree.isRule .primaryExprCompare = false ∧
            (b.tree.isRule .updateElement = true →
              Tree.leavesAll (b.tree.children.drop 2) ≠ s.here.tree.leaves))) = true :=
    ⟨_, rfl, by decide +kernel⟩
  obtain ⟨a, ha, htoken, hgrammar, hsite⟩ := hfacts
  obtain ⟨s, hsites, hsite⟩ := Document.exists_site hsite
  simp only [Bool.and_eq_true, beq_iff_eq, decide_eq_true_eq] at hsite
  obtain ⟨⟨⟨hrule, hliteral⟩, hcompared⟩, hancestors⟩ := hsite
  exact ⟨a, ha, htoken, hgrammar, _, s, _, hsites, hrule, hliteral, hcompared, hancestors⟩

end Config

end MySqlAnalysis
