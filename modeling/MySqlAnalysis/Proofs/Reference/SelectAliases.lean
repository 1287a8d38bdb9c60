import MySqlAnalysis.Proofs.Grammar.PlainColumns
import MySqlAnalysis.Proofs.Reference.Recorded

/-!
# Aliases of select items

In a text without a parser error, the alias of a select item stands for a column exactly
if the expression of the item has the leaves of that column and no others, a test for a
truth value behind it not counted (`Config.analyze_selectAlias`).
-/

set_option autoImplicit false

namespace MySqlAnalysis

open Grammar

variable {tokens : List Token} {root : Tree} {item expression column : Located}

/-! ### Leaves of columns and aliases -/

theorem Tree.length_leaves_pos_of_shapes {t : Tree} {r : Rule}
    (ht : t.Every (Tabled tokens ruleShapes)) (hrule : t.rule? = some r)
    (hshapes : ∀ s ∈ ruleShapes r, s.outweighs = true) : 0 < t.leaves.length := by
  obtain ⟨s, hs, hfits⟩ := ht.children hrule
  obtain ⟨part, hpart, houtweighs⟩ := exists_outweighs_of_fits ht hfits (hshapes s hs)
  exact length_leaves_pos houtweighs hpart

/-- Two places whose trees have a leaf in common lie one inside the other. -/
theorem Located.inside_or_inside {l m : Located} (hroot : root.leaves.Nodup)
    (hl : root.at? l.address = some l.tree) (hm : root.at? m.address = some m.tree) {i : Nat}
    (hi : i ∈ l.tree.leaves) (hi' : i ∈ m.tree.leaves) : l.Inside m ∨ m.Inside l := by
  have hinside : ∀ {l m : Located}, root.at? l.address = some l.tree →
      root.at? m.address = some m.tree → l.address <:+ m.address → l.Inside m := by
    rintro l m hl hm ⟨below, hbelow⟩
    refine ⟨below, hbelow.symm, ?_⟩
    rw [← hbelow, Tree.at?_append, hl] at hm
    exact hm
  exact (Tree.suffix_or_suffix hroot hl hm hi hi').imp (hinside hl hm) (hinside hm hl)

theorem ne_of_mem_itemRules : ∀ x ∈ itemRules, x ≠ .columnRef ∧ x ≠ .selectAlias := by
  decide

/-- The alias of a select item is behind its expression. -/
theorem Located.exists_address_of_alias {name : Located} (hname : name ∈ item.children)
    (halias : name.tree.rule? = some .selectAlias) (hexpression : item.child? 0 = some expression)
    {x : Rule} (hx : x ∈ itemRules) (hrule : expression.tree.rule? = some x) :
    ∃ k, 0 < k ∧ name.address = k :: item.address := by
  obtain ⟨k, haddress, htree⟩ := mem_children_iff.1 hname
  refine ⟨k, Nat.pos_of_ne_zero ?_, haddress⟩
  rintro rfl
  obtain ⟨-, hchild⟩ := child?_eq_some.1 hexpression
  rw [htree] at hchild
  rw [← Option.some.inj hchild, halias] at hrule
  exact (ne_of_mem_itemRules x hx).2 (Option.some.inj hrule).symm

/-- A column with the leaves of the expression of a select item that has an alias is inside
the expression: around the item there are more leaves. -/
theorem Located.inside_of_leaves {name : Located} (hroot : root.leaves.Nodup)
    (hevery : root.Every (Tabled tokens ruleShapes))
    (hitem : root.at? item.address = some item.tree)
    (hexpression : item.child? 0 = some expression) {x : Rule} (hx : x ∈ itemRules)
    (hrule : expression.tree.rule? = some x) (hname : name ∈ item.children)
    (halias : name.tree.rule? = some .selectAlias)
    (hat : root.at? column.address = some column.tree)
    (hcolumn : column.tree.isRule .columnRef = true)
    (hleaves : expression.tree.leaves = column.tree.leaves ++ expression.tree.truthTest) :
    expression.Inside column := by
  have hplace := (inside_of_child? hexpression).at? hitem
  have hcolumnPos : 0 < column.tree.leaves.length :=
    Tree.length_leaves_pos_of_shapes (hevery.of_at? hat) (Tree.isRule_iff.1 hcolumn)
      (by decide +kernel)
  obtain ⟨i, hi⟩ := List.exists_mem_of_length_pos hcolumnPos
  have hshared : i ∈ expression.tree.leaves := by
    rw [hleaves]
    exact List.mem_append_left _ hi
  refine (inside_or_inside hroot hplace hat hshared hi).resolve_right ?_
  rintro ⟨below, haddress, hbelow⟩
  obtain ⟨hstep, hchild⟩ := child?_eq_some.1 hexpression
  obtain ⟨hneColumn, hneAlias⟩ := ne_of_mem_itemRules x hx
  cases below with
  | nil =>
      rw [Option.some.inj hbelow, Tree.isRule_iff, hrule] at hcolumn
      exact hneColumn (Option.some.inj hcolumn)
  | cons j below =>
      -- the item is in the column, and it has the leaves of its alias too
      rw [hstep, List.cons_append] at haddress
      have hitemIn : column.tree.at? below = some item.tree := by
        rw [(List.cons.inj haddress).2, Tree.at?_append, hat] at hitem
        exact hitem
      have hle := (Tree.leaves_sublist hitemIn).length_le
      have hmem := Located.mem_of_mem_children hname
      have hne : expression.tree ≠ name.tree := by
        intro heq
        rw [heq, halias] at hrule
        exact hneAlias (Option.some.inj hrule).symm
      have hadd := Tree.length_leaves_add_le (List.mem_of_getElem? hchild) hmem hne
      have hnamePos : 0 < name.tree.leaves.length :=
        Tree.length_leaves_pos_of_shapes ((hevery.of_at? hitem).of_mem hmem) halias
          (by decide +kernel)
      rw [hleaves, List.length_append] at hadd
      omega

/-! ### What an alias stands for -/

theorem Collector.getElem?_leaveSelectAlias (d : Document) (c : Collector) {s : Site}
    {name : Located} (hitem : s.parent? = some item) (hname : s.here.lastChild? = some name) :
    (c.leaveSelectAlias d s).mentions[c.next]? = some (.aliasName (d.name name.tree)
      (.column (s.itemColumn?.bind (c.columns.lookup ·.address)))) := by
  rw [leaveSelectAlias, hitem, hname]
  dsimp only
  split
  · -- the column that gets the alias is another mention
    rw [mentions_modify, List.getElem?_modify, mentions_add, ← length_mentions,
      List.getElem?_concat_length]
    split <;> rfl
  · rw [mentions_add, ← length_mentions, List.getElem?_concat_length]

section Aliases

variable {d : Document} {before after : List Site} {s : Site} {i : Nat}

/-- The column that an alias is given to has the leaves of the expression of its item. -/
theorem Document.itemColumn?_lookup (hroot : d.root = some root)
    (hevery : root.Every (Tabled tokens ruleShapes)) (hnodup : root.leaves.Nodup)
    (hsites : d.sites = before ++ s :: after) (halias : s.here.tree.rule? = some .selectAlias)
    (hitem : s.parent? = some item) (hrule : item.tree.rule? = some .selectItem)
    (hexpression : item.child? 0 = some expression) :
    s.itemColumn?.bind ((d.collectedAfter before).columns.lookup ·.address) = some i ↔
      ∃ column, (Collector.ofDocument d).Records root column i ∧
        expression.tree.leaves = column.tree.leaves ++ expression.tree.truthTest := by
  have hs : s ∈ d.sites := by
    rw [hsites]
    exact List.mem_append_right _ List.mem_cons_self
  obtain ⟨above, hancestors⟩ := List.head?_eq_some_iff.1 hitem
  obtain ⟨root', hroot', hlineage⟩ := d.sites_lineage hs
  obtain rfl : root = root' := Option.some.inj (hroot.symm.trans hroot')
  rw [hancestors] at hlineage
  obtain ⟨hpart, habove⟩ := hlineage.of_cons
  have hitemEvery := habove.every hevery
  rw [Option.bind_eq_some_iff]
  constructor
  · rintro ⟨column, hcolumn, hlookup⟩
    obtain ⟨hcolumnRule, hinside, hleaves⟩ :=
      (Site.itemColumn?_iff hitem hrule hitemEvery hexpression).1 hcolumn
    have hplace := ((Located.inside_of_child? hexpression).trans hinside).at? habove.at?
    exact ⟨column, records_of_before hsites ⟨hplace, hcolumnRule, Collected.mem_of_lookup hlookup⟩,
      hleaves⟩
  · rintro ⟨column, ⟨hat, hcolumnRule, hmem⟩, hleaves⟩
    obtain ⟨x, hx, hxRule⟩ := Located.exists_itemRule hitemEvery hrule hexpression
    have hinside := Located.inside_of_leaves hnodup hevery habove.at? hexpression hx hxRule hpart
      halias hat hcolumnRule hleaves
    have hcolumn : s.itemColumn? = some column :=
      (Site.itemColumn?_iff hitem hrule hitemEvery hexpression).2 ⟨hcolumnRule, hinside, hleaves⟩
    refine ⟨column, hcolumn, ?_⟩
    -- the expression is left before the alias behind it
    obtain ⟨-, s', hs', haddress'⟩ := (Collector.ofDocument_waiting d).left _ hmem
    obtain ⟨k, hk, haddress⟩ := Located.exists_address_of_alias hpart halias hexpression hx hxRule
    have hbehind : (k :: item.address) <:+ s.here.address := by rw [haddress]
    have hfront : (0 :: item.address) <:+ s'.here.address := by
      obtain ⟨below, hbelow, -⟩ := hinside
      rw [haddress', hbelow, (Located.child?_eq_some.1 hexpression).1]
      exact List.suffix_append _ _
    exact lookup_columns hsites ⟨s', mem_before hsites hs' hk hbehind hfront, haddress'⟩ hmem

end Aliases

/-- The alias of a select item has a last part, and the item has an expression. -/
theorem Lineage.exists_parts_of_selectAlias {l : Located} {above : List Located}
    (h : Lineage root l (item :: above)) (hevery : root.Every (Tabled tokens ruleShapes))
    (halias : l.tree.rule? = some .selectAlias) :
    ∃ expression name, item.child? 0 = some expression ∧ l.lastChild? = some name := by
  obtain ⟨hpart, -⟩ := h.of_cons
  obtain ⟨s, hs, hfits⟩ := (h.every hevery).children halias
  have hshapes : ∀ s ∈ ruleShapes .selectAlias, s.outweighs = true := by decide +kernel
  obtain ⟨part, hmem, -⟩ := Tree.exists_outweighs_of_fits (h.every hevery) hfits (hshapes s hs)
  have hname : l.children ≠ [] := by
    simpa [Located.children] using List.ne_nil_of_mem hmem
  have hexpression : 0 < item.tree.children.length :=
    List.length_pos_of_mem (Located.mem_of_mem_children hpart)
  exact ⟨⟨0 :: item.address, item.tree.children[0]⟩, _,
    Located.child?_eq_some.2 ⟨rfl, List.getElem?_eq_getElem hexpression⟩,
    List.getLast?_eq_some_getLast hname⟩

/-- The leaves of the tree of a text are distinct. -/
theorem Config.analyze_leaves_nodup (c : Config) (start : StartRule) (text : String) :
    ∀ root ∈ (c.analyze start text).document.root, root.leaves.Nodup := by
  intro root hroot
  rw [root_eq_exact] at hroot
  obtain ⟨root', hroot', hcovers⟩ := parse_covers c.exactOptions start
    (tokenize_listed c.dialect text) (List.mem_of_getLast? (tokenize_ending c.dialect text).1)
  obtain rfl := Option.mem_unique hroot hroot'
  exact hcovers.sorted.imp fun h => Nat.ne_of_lt h

/-- In a text without a parser error, the alias of a select item stands for the column that
was recorded for a node with exactly the leaves of the expression of the item, a test for a
truth value at its end not counted, and for no column when there is none. -/
theorem Config.analyze_selectAlias (c : Config) (start : StartRule) (text : String)
    (herror : (c.analyze start text).diagnostics.parser = none) {before after : List Site}
    {s : Site} (hsites : (c.analyze start text).document.sites = before ++ s :: after)
    (halias : s.here.tree.isRule .selectAlias = true) (hitem : s.parent? = some item)
    (hrule : item.tree.isRule .selectItem = true) :
    ∃ (root : Tree) (expression name : Located) (target : Option Nat),
      (c.analyze start text).document.root = some root ∧
      item.child? 0 = some expression ∧ s.here.lastChild? = some name ∧
      ((c.analyze start text).references.map Reference.mention)[
          ((c.analyze start text).document.collectedAfter before).next]? =
        some (.aliasName ((c.analyze start text).document.name name.tree) (.column target)) ∧
      ∀ i, target = some i ↔ ∃ column : Located,
        (Collector.ofDocument (c.analyze start text).document).Records root column i ∧
        expression.tree.leaves = column.tree.leaves ++ expression.tree.truthTest := by
  rw [Tree.isRule_iff] at halias hrule
  obtain ⟨root, hroot, hlineage⟩ := Document.sites_lineage
    (hsites ▸ List.mem_append_right before List.mem_cons_self)
  have hevery := c.analyze_shaped start text herror root hroot
  have hnodup := c.analyze_leaves_nodup start text root hroot
  obtain ⟨above, hancestors⟩ := List.head?_eq_some_iff.1 hitem
  rw [hancestors] at hlineage
  obtain ⟨expression, name, hexpression, hname⟩ :=
    hlineage.exists_parts_of_selectAlias hevery halias
  refine ⟨root, expression, name, _, hroot, hexpression, hname, ?_, fun i =>
    Document.itemColumn?_lookup hroot hevery hnodup hsites halias hitem hrule hexpression⟩
  have hleft : (c.analyze start text).document.sites = (before ++ [s]) ++ after := by
    rw [hsites, List.append_assoc]
    rfl
  refine Document.getElem?_alias hleft ?_
  rw [Document.collectedAfter, List.foldl_append, List.foldl_cons, List.foldl_nil,
    Collector.leave, halias]
  exact Collector.getElem?_leaveSelectAlias _ _ hitem hname

/-- An alias of a column stands for the column whose leaves the item has before it. -/
theorem Config.analyze_selectAlias_plain :
    ∃ a, a = Config.standard.analyze .query "SELECT a AS x" ∧
      (a.references.map Reference.mention)[1]? = some (.aliasName "x" (.column (some 0))) ∧
      ∃ (root : Tree) (item expression column : Located), a.document.root = some root ∧
        item.tree.isRule .selectItem = true ∧ item.child? 0 = some expression ∧
        (Collector.ofDocument a.document).Records root column 0 ∧
        expression.tree.leaves = column.tree.leaves ++ expression.tree.truthTest := by
  have hfacts : ∃ a, a = Config.standard.analyze .query "SELECT a AS x" ∧
      a.diagnostics.parser = none ∧
      (a.references.map Reference.mention)[1]? = some (.aliasName "x" (.column (some 0))) ∧
      (a.document.collectedAfter (a.document.sites.take 8)).next = 1 ∧
      (a.document.sites[8]?.any fun s => s.here.tree.isRule .selectAlias &&
        s.parent?.any (·.tree.isRule .selectItem)) = true :=
    ⟨_, rfl, by decide +kernel⟩
  obtain ⟨a, rfl, herror, hmention, hnext, hsite⟩ := hfacts
  refine ⟨_, rfl, hmention, ?_⟩
  obtain ⟨s, hsites, hsite⟩ := Document.exists_site hsite
  obtain ⟨halias, hparent⟩ := Bool.and_eq_true_iff.1 hsite
  obtain ⟨item, hitem, hrule⟩ := (Option.any_eq_true _ _).1 hparent
  obtain ⟨root, expression, name, target, hroot, hexpression, -, htarget, hiff⟩ :=
    Config.analyze_selectAlias .standard .query "SELECT a AS x" herror hsites halias hitem hrule
  rw [hnext, hmention, Option.some_inj, Mention.aliasName.injEq, AliasTarget.column.injEq]
    at htarget
  obtain ⟨column, hrecords, hleaves⟩ := (hiff 0).1 htarget.2.symm
  exact ⟨root, item, expression, column, hroot, hrule, hexpression, hrecords, hleaves⟩

/-- An alias also stands for a column that is tested for a truth value. -/
theorem Config.analyze_selectAlias_tested :
    ∃ a, a = Config.standard.analyze .query "SELECT a IS TRUE AS x" ∧
      a.tokenEvents.isEmpty = true ∧ a.grammarEvents.isEmpty = true ∧
      (a.references.map Reference.mention)[1]? = some (.aliasName "x" (.column (some 0))) ∧
      ∃ s ∈ a.document.sites, s.here.tree.isRule .selectAlias = true ∧
        ∃ item ∈ s.parent?, item.tree.isRule .selectItem = true ∧
          ∃ expression ∈ item.child? 0, ∃ root ∈ a.document.root,
            ∀ p ∈ (Collector.ofDocument a.document).columns, ∀ column ∈ root.at? p.1,
              expression.tree.leaves ≠ column.leaves := by
  have hfacts : ∃ a, a = Config.standard.analyze .query "SELECT a IS TRUE AS x" ∧
      a.tokenEvents.isEmpty = true ∧ a.grammarEvents.isEmpty = true ∧
      (a.references.map Reference.mention)[1]? = some (.aliasName "x" (.column (some 0))) ∧
      ∃ s ∈ a.document.sites, (s.here.tree.isRule .selectAlias &&
        s.parent?.any fun item => item.tree.isRule .selectItem &&
          (item.child? 0).any fun expression => a.document.root.any fun root =>
            (Collector.ofDocument a.document).columns.all fun p =>
              (root.at? p.1).all fun column => expression.tree.leaves != column.leaves) = true :=
    ⟨_, rfl, by decide +kernel⟩
  obtain ⟨a, ha, htoken, hgrammar, hmention, s, hs, hsite⟩ := hfacts
  obtain ⟨halias, hparent⟩ := Bool.and_eq_true_iff.1 hsite
  obtain ⟨item, hitem, hrest⟩ := (Option.any_eq_true _ _).1 hparent
  obtain ⟨hrule, hrest⟩ := Bool.and_eq_true_iff.1 hrest
  obtain ⟨expression, hexpression, hrest⟩ := (Option.any_eq_true _ _).1 hrest
  obtain ⟨root, hroot, hrest⟩ := (Option.any_eq_true _ _).1 hrest
  refine ⟨a, ha, htoken, hgrammar, hmention, s, hs, halias, item, hitem, hrule, expression,
    hexpression, root, hroot, fun p hp column hcolumn => ?_⟩
  have hp := List.all_eq_true.1 hrest p hp
  rw [Option.mem_def.1 hcolumn] at hp
  exact bne_iff_ne.1 hp

end MySqlAnalysis
