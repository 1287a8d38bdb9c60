import Mathlib.Data.List.Nodup
import MySqlAnalysis.Proofs.Reference.Inference
import MySqlAnalysis.Proofs.Reference.Waiting

/-!
# What is recorded for a node

Each node is left once, so what is recorded for a node while the tree is walked stays:
a column is looked up alike during and after the walk, once its node was left
(`Document.lookup_columns`), and an alias keeps what it stands for
(`Document.getElem?_alias`). The nodes in a part of a node are left before those in the
parts behind it (`Document.sites_ordered`).
-/

set_option autoImplicit false

namespace MySqlAnalysis

/-! ### The order of a walk -/

/-- The second site is in no part in front of one that the first site is in. -/
def Site.NotBefore (s s' : Site) : Prop :=
  ∀ (address : Address) (i j : Nat), (i :: address) <:+ s.here.address →
    (j :: address) <:+ s'.here.address → i ≤ j

namespace Tree

variable {d : Document}

/-- Addresses below two parts of one node are in the order of the parts. -/
theorem le_of_cons_suffix {i j k l : Nat} {address above x y : Address} (hik : i < k)
    (hx : (i :: above) <:+ x) (hy : (k :: above) <:+ y) (hj : (j :: address) <:+ x)
    (hl : (l :: address) <:+ y) : j ≤ l := by
  rcases Nat.lt_trichotomy address.length above.length with hlt | heq | hgt
  · -- both addresses go through the part that is above
    have hj' := List.suffix_of_suffix_length_le hj ((List.suffix_cons i above).trans hx) hlt
    have hl' := List.suffix_of_suffix_length_le hl ((List.suffix_cons k above).trans hy) hlt
    exact Nat.le_of_eq (eq_of_cons_suffix hj' hl')
  · have hsame : ∀ {m n : Nat} {z : Address}, (m :: address) <:+ z → (n :: above) <:+ z →
        m = n := by
      intro m n z hm hn
      have h := List.suffix_of_suffix_length_le hm hn (by simp [heq])
      exact (List.cons.inj (h.eq_of_length (by simp [heq]))).1
    rw [hsame hj hx, hsame hl hy]
    exact Nat.le_of_lt hik
  · have hi := List.suffix_of_suffix_length_le hx ((List.suffix_cons j address).trans hj) hgt
    have hk := List.suffix_of_suffix_length_le hy ((List.suffix_cons l address).trans hl) hgt
    exact absurd (eq_of_cons_suffix hi hk) (Nat.ne_of_lt hik)

mutual

theorem sitesAt_ordered (ancestors : List Located) (address : Address) (t : Tree) :
    (sitesAt d ancestors address t).Pairwise Site.NotBefore := by
  cases t with
  | token index =>
      rw [sitesAt_leaf ancestors address rfl]
      exact List.Pairwise.nil
  | skipped index =>
      rw [sitesAt_leaf ancestors address rfl]
      exact List.Pairwise.nil
  | node rule first last parts =>
      rw [sitesAt_node, List.pairwise_append]
      refine ⟨sitesFrom_ordered _ address 0 parts, List.pairwise_singleton _ _, ?_⟩
      intro s hs s' hs' below i j hi hj
      rw [List.mem_singleton.1 hs'] at hj
      -- the node that is left last is above the others
      obtain ⟨k, -, hsuffix⟩ := suffix_of_mem_sitesFrom _ address 0 parts s hs
      have hj' := hj.trans ((List.suffix_cons k address).trans hsuffix)
      exact Nat.le_of_eq (eq_of_cons_suffix hi hj')

theorem sitesFrom_ordered (ancestors : List Located) (address : Address) (i : Nat)
    (ts : List Tree) : (sitesFrom d ancestors address i ts).Pairwise Site.NotBefore := by
  cases ts with
  | nil => exact List.Pairwise.nil
  | cons t ts =>
      rw [sitesFrom_cons, List.pairwise_append]
      refine ⟨sitesAt_ordered ancestors (i :: address) t,
        sitesFrom_ordered ancestors address (i + 1) ts, ?_⟩
      intro s hs s' hs' below j l hj hl
      have hsuffix := suffix_of_mem_sitesAt ancestors (i :: address) t s hs
      obtain ⟨k, hk, hsuffix'⟩ := suffix_of_mem_sitesFrom ancestors address (i + 1) ts s' hs'
      exact le_of_cons_suffix hk hsuffix hsuffix' hj hl

end

end Tree

theorem Document.sites_ordered (d : Document) : d.sites.Pairwise Site.NotBefore := by
  cases h : d.root with
  | none =>
      rw [sites_of_none h]
      exact List.Pairwise.nil
  | some t =>
      rw [sites_eq h]
      exact Tree.sitesAt_ordered [] [] t

/-- A node that is found by its number stands between those left before and after it. -/
theorem Document.exists_site {d : Document} {n : Nat} {p : Site → Bool}
    (h : d.sites[n]?.any p = true) :
    ∃ s, d.sites = d.sites.take n ++ s :: d.sites.drop (n + 1) ∧ p s = true := by
  obtain ⟨s, hs, hp⟩ := (Option.any_eq_true _ _).1 h
  obtain ⟨hn, rfl⟩ := List.getElem?_eq_some_iff.1 hs
  exact ⟨_, by rw [List.cons_getElem_drop_succ, List.take_append_drop], hp⟩

/-- A node in a part in front of one that a node is in was left before that node. -/
theorem Document.mem_before {d : Document} {before after : List Site} {s s' : Site}
    (hsites : d.sites = before ++ s :: after) (hs' : s' ∈ d.sites) {address : Address} {i j : Nat}
    (hji : j < i) (hi : (i :: address) <:+ s.here.address)
    (hj : (j :: address) <:+ s'.here.address) : s' ∈ before := by
  have hordered := d.sites_ordered
  rw [hsites] at hs' hordered
  rcases List.mem_append.1 hs' with hs' | hs'
  · exact hs'
  · have hle : i ≤ j := by
      rcases List.mem_cons.1 hs' with rfl | hs'
      · exact Nat.le_of_eq (Tree.eq_of_cons_suffix hi hj)
      · exact (List.pairwise_cons.1 (List.pairwise_append.1 hordered).2.1).1 s' hs' _ _ _ hi hj
    exact absurd hji (Nat.not_lt.2 hle)

/-! ### Columns -/

namespace Collector

variable (d : Document)

/-- Only the node of a column is recorded as one. -/
theorem columns_leave (c : Collector) (s : Site) :
    (c.leave d s).columns = c.columns ∨
      ∃ i, (c.leave d s).columns = (s.here.address, i) :: c.columns := by
  rcases c.leave_cases d s with hextends | ⟨c', table, name, hextends, -, heq⟩
  · exact .inl (Grows.of_extends d hextends).columns
  · rw [heq, ← (Grows.of_extends d hextends).columns]
    exact .inr ⟨_, rfl⟩

/-- The columns that are added come from the nodes that are left, at most one from each. -/
theorem columns_foldl (sites : List Site) :
    ∀ c : Collector, ∃ added, (sites.foldl (·.leave d ·) c).columns = added ++ c.columns ∧
      (added.map Prod.fst).Sublist (sites.map (·.here.address)).reverse := by
  induction sites with
  | nil => exact fun c => ⟨[], rfl, List.Sublist.refl _⟩
  | cons s sites ih =>
      intro c
      obtain ⟨added, hadded, hsub⟩ := ih (c.leave d s)
      rw [List.foldl_cons, hadded, List.map_cons, List.reverse_cons]
      rcases columns_leave d c s with heq | ⟨i, heq⟩
      · exact ⟨added, by rw [heq], hsub.trans (List.sublist_append_left _ _)⟩
      · refine ⟨added ++ [(s.here.address, i)], by rw [heq, List.append_assoc]; rfl, ?_⟩
        rw [List.map_append]
        exact hsub.append (List.Sublist.refl _)

end Collector

/-- A value is found under its key when no key occurs twice. -/
theorem lookup_eq_some_of_mem {marks : List (Address × Nat)} (h : (marks.map Prod.fst).Nodup)
    {address : Address} {i : Nat} (hmem : (address, i) ∈ marks) :
    marks.lookup address = some i := by
  obtain ⟨front, rest, rfl⟩ := List.append_of_mem hmem
  rw [List.map_append, List.map_cons, List.nodup_append] at h
  refine List.lookup_eq_some_iff.2 ⟨front, rest, rfl, fun p hp => ?_⟩
  have hne := h.2.2 p.1 (List.mem_map_of_mem hp) address List.mem_cons_self
  simpa using hne.symm

/-- The place is a column of the tree, which was recorded as the given mention. -/
structure Collector.Records (c : Collector) (root : Tree) (column : Located) (i : Nat) :
    Prop where
  place : root.at? column.address = some column.tree
  rule : column.tree.isRule .columnRef = true
  mark : (column.address, i) ∈ c.columns

/-- A collector after the first nodes of a document were left. -/
def Document.collectedAfter (d : Document) (sites : List Site) : Collector :=
  sites.foldl (·.leave d ·) .empty

theorem Document.collectedAfter_append (d : Document) (before after : List Site) :
    d.collectedAfter (before ++ after) = after.foldl (·.leave d ·) (d.collectedAfter before) :=
  List.foldl_append

theorem Collector.ofDocument_eq (d : Document) : ofDocument d = d.collectedAfter d.sites :=
  foldl_visit d d.walk empty

namespace Document

variable {d : Document} {before after : List Site} {address : Address} {i : Nat}

theorem exists_columns (hsites : d.sites = before ++ after) :
    ∃ added, (Collector.ofDocument d).columns = added ++ (d.collectedAfter before).columns ∧
      (added.map Prod.fst).Sublist (after.map (·.here.address)).reverse := by
  rw [Collector.ofDocument_eq, hsites, collectedAfter_append]
  exact Collector.columns_foldl d after _

/-- A column that is recorded stays recorded. -/
theorem records_of_before (hsites : d.sites = before ++ after) {root : Tree} {column : Located}
    (h : (d.collectedAfter before).Records root column i) :
    (Collector.ofDocument d).Records root column i := by
  obtain ⟨added, hcolumns, -⟩ := exists_columns hsites
  refine ⟨h.place, h.rule, ?_⟩
  rw [hcolumns]
  exact List.mem_append_right _ h.mark

/-- Once a node was left, its column is looked up as after the walk. -/
theorem lookup_columns (hsites : d.sites = before ++ after)
    (hleft : ∃ s ∈ before, s.here.address = address)
    (h : (address, i) ∈ (Collector.ofDocument d).columns) :
    (d.collectedAfter before).columns.lookup address = some i := by
  have hdistinct := d.sites_distinct
  rw [hsites, List.pairwise_append] at hdistinct
  obtain ⟨hbefore, -, hcross⟩ := hdistinct
  obtain ⟨added, hcolumns, hsub⟩ := exists_columns hsites
  rw [hcolumns] at h
  rcases List.mem_append.1 h with h | h
  · -- what was added later belongs to nodes at other places
    have hmem := hsub.subset (List.mem_map_of_mem h)
    obtain ⟨s', hs', haddress'⟩ := List.mem_map.1 (List.mem_reverse.1 hmem)
    obtain ⟨s, hs, haddress⟩ := hleft
    exact absurd (haddress.trans haddress'.symm) (hcross s hs s' hs')
  · obtain ⟨added', hcolumns', hsub'⟩ := Collector.columns_foldl d before .empty
    refine lookup_eq_some_of_mem ?_ h
    rw [collectedAfter, hcolumns', Collector.empty, List.append_nil]
    refine (List.nodup_reverse.2 ?_).sublist hsub'
    rw [List.Nodup, List.pairwise_map]
    exact hbefore

end Document

/-! ### Aliases -/

/-- The aliases of the first list of mentions are aliases of the same in the second one. -/
def KeepsAliases (ms ms' : List Mention) : Prop :=
  ∀ (i : Nat) (name : String) (target : AliasTarget),
    ms[i]? = some (.aliasName name target) → ms'[i]? = some (.aliasName name target)

theorem KeepsAliases.refl (ms : List Mention) : KeepsAliases ms ms :=
  fun _ _ _ h => h

theorem KeepsAliases.trans {ms ms' ms'' : List Mention} (h : KeepsAliases ms ms')
    (h' : KeepsAliases ms' ms'') : KeepsAliases ms ms'' :=
  fun i name target hi => h' i name target (h i name target hi)

theorem Collector.keepsAliases_add (d : Document) (c : Collector) (place : Tree) (m : Mention) :
    KeepsAliases c.mentions (c.add d place m).mentions := by
  intro i name target h
  rw [mentions_add]
  exact Linked.getElem?_concat_left h

theorem Collector.Extends.keepsAliases {d : Document} {c c' : Collector} (h : c.Extends d c') :
    KeepsAliases c.mentions c'.mentions := by
  induction h with
  | refl => exact .refl _
  | add place m _ ih => exact ih.trans (keepsAliases_add d _ place m)
  | withAlias j a _ ih =>
      refine ih.trans fun i name target h => ?_
      rw [mentions_modify, List.getElem?_modify, h]
      by_cases hij : j = i <;> simp [hij, Mention.withAlias]
  | tables _ _ ih => exact ih

theorem Collector.keepsAliases_leave (d : Document) (c : Collector) (s : Site) :
    KeepsAliases c.mentions (c.leave d s).mentions := by
  rcases c.leave_cases d s with hextends | ⟨c', table, name, hextends, -, heq⟩
  · exact hextends.keepsAliases
  · rw [heq]
    exact hextends.keepsAliases.trans (keepsAliases_add d c' _ _)

theorem Collector.keepsAliases_foldl (d : Document) (sites : List Site) :
    ∀ c : Collector, KeepsAliases c.mentions (sites.foldl (·.leave d ·) c).mentions := by
  induction sites with
  | nil => exact fun c => .refl c.mentions
  | cons s sites ih => exact fun c => (c.keepsAliases_leave d s).trans (ih _)

theorem Collector.keepsAliases_linked (c : Collector) :
    KeepsAliases c.mentions (c.linked.map Reference.mention) := by
  intro i name target h
  rw [mentions, List.getElem?_map] at h
  obtain ⟨r, hr, hmention⟩ := Option.map_eq_some_iff.1 h
  rw [List.getElem?_map, getElem?_linked, hr]
  cases c.dueTable? i <;>
    simp [Reference.mapMention, hmention, Mention.linkedTo, Mention.withTable]

theorem Reference.keepsAliases_infer (rs : List Reference) :
    KeepsAliases (rs.map mention) ((infer rs).map mention) := by
  intro i name target h
  by_cases hone : (rs.filter (·.mention.isTableProper)).length = 1
  · obtain ⟨table, htable⟩ := List.length_eq_one_iff.1 hone
    rw [List.getElem?_map] at h
    obtain ⟨r, hr, hmention⟩ := Option.map_eq_some_iff.1 h
    rw [List.getElem?_map, getElem?_infer htable, hr]
    simp [mapMention, hmention, Mention.inferred]
  · rw [infer_of_length_ne hone]
    exact h

/-- An alias that was found stands for the same in the references of the document. -/
theorem Document.getElem?_alias {d : Document} {before after : List Site}
    (hsites : d.sites = before ++ after) {i : Nat} {name : String} {target : AliasTarget}
    (h : (d.collectedAfter before).mentions[i]? = some (.aliasName name target)) :
    (d.references.map Reference.mention)[i]? = some (.aliasName name target) := by
  have hwalk : KeepsAliases (d.collectedAfter before).mentions
      (Collector.ofDocument d).mentions := by
    rw [Collector.ofDocument_eq, hsites, collectedAfter_append]
    exact Collector.keepsAliases_foldl d after _
  have hlinks := hwalk.trans (Collector.keepsAliases_linked _)
  exact hlinks.trans (Reference.keepsAliases_infer _) i name target h

end MySqlAnalysis
