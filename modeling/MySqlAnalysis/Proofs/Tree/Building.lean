import MySqlAnalysis.Proofs.Tree.Stored

/-!
# Building a tree in an arena

An arena in which a node is open stores the trees that were built in that node
so far (`Arena.Open`). While a node is open, nothing before it changes but its
own part list (`Arena.Extends`), so an attempt can be taken back
(`Arena.Extends.undo`). A node that is opened and closed again becomes a part of
the node around it, be it new (`Arena.Open.enter`) or around an earlier part
(`Arena.Open.enterAround`). When no node is open, all nodes belong to one
tree (`Arena.Rooted`).
-/

set_option autoImplicit false

namespace MySqlAnalysis

namespace Arena

/-! ### Growing below an open node -/

/-- The second arena differs from the first one in new nodes and in the parts of
the node at `id`. -/
structure Extends (id : Nat) (a a' : Arena) : Prop where
  stack : a'.stack = a.stack
  size : a.nodes.size ≤ a'.nodes.size
  frame : ∀ j < a.nodes.size, j ≠ id → a'.nodes[j]? = a.nodes[j]?
  parts : ∀ n, a.nodes[id]? = some n → ∃ parts, a'.nodes[id]? = some { n with children := parts }

theorem Extends.refl (id : Nat) (a : Arena) : Extends id a a where
  stack := rfl
  size := Nat.le_refl _
  frame _ _ _ := rfl
  parts n hn := ⟨n.children, hn⟩

theorem Extends.trans {id : Nat} {a a' a'' : Arena} (h : Extends id a a')
    (h' : Extends id a' a'') : Extends id a a'' where
  stack := h'.stack.trans h.stack
  size := Nat.le_trans h.size h'.size
  frame j hj hne := (h'.frame j (Nat.lt_of_lt_of_le hj h.size) hne).trans (h.frame j hj hne)
  parts n hn := by
    obtain ⟨parts, hparts⟩ := h.parts n hn
    obtain ⟨parts', hparts'⟩ := h'.parts _ hparts
    exact ⟨parts', hparts'⟩

/-- The innermost open node is at `id` and has the trees as its parts. The
positions that it and they do not use are `outside`. -/
structure Open (id : Nat) (outside : List Nat) (ts : List Tree) (a : Arena) : Prop where
  top : a.stack.head? = some id
  stored : ∃ n ids, a.nodes[id]? = some n ∧ StoredAll a.nodes ts n.children ids ∧
    (id :: (ids ++ outside)).Perm (List.range a.nodes.size)

section Moves

variable {id : Nat} {outside : List Nat} {ts : List Tree} {a : Arena}

theorem modifyTop_of_top (h : a.stack.head? = some id) (f : Node → Node) :
    a.modifyTop f = ⟨a.nodes.modify id f, a.stack⟩ := by
  obtain ⟨nodes, stack⟩ := a
  cases stack with
  | nil => cases h
  | cons top rest =>
      cases h
      rfl

theorem topChildren_of_top (h : a.stack.head? = some id) {n : Node}
    (hn : a.nodes[id]? = some n) : a.topChildren = n.children := by
  obtain ⟨nodes, stack⟩ := a
  cases stack with
  | nil => cases h
  | cons top rest =>
      cases h
      simp only [topChildren]
      rw [show nodes[id]? = some n from hn]
      rfl

/-- Positions that are listed once with all others are in range and differ. -/
theorem lt_and_ne_of_perm {ids : List Nat} {size : Nat}
    (h : (id :: (ids ++ outside)).Perm (List.range size)) {j : Nat} (hj : j ∈ ids ++ outside) :
    j < size ∧ j ≠ id := by
  refine ⟨List.mem_range.1 (h.mem_iff.1 (List.mem_cons_of_mem _ hj)), ?_⟩
  rintro rfl
  have hnodup := h.nodup_iff.2 List.nodup_range
  exact (List.nodup_cons.1 hnodup).1 hj

/-- Taking everything back restores the arena. -/
theorem Extends.undo {a' : Arena} (htop : a.stack.head? = some id) (h : Extends id a a')
    (hid : id < a.nodes.size) : Arena.undo a a' = a := by
  obtain ⟨n, hn⟩ : ∃ n, a.nodes[id]? = some n := ⟨_, Array.getElem?_eq_getElem hid⟩
  obtain ⟨parts, hparts⟩ := h.parts n hn
  have htop' : (⟨a'.nodes.take a.nodes.size, a.stack⟩ : Arena).stack.head? = some id := htop
  rw [Arena.undo, h.stack, Nat.sub_self, List.drop_zero, modifyTop_of_top htop',
    topChildren_of_top htop hn]
  have hnodes : ((a'.nodes.take a.nodes.size).modify id fun m => { m with children := n.children })
      = a.nodes := by
    refine Array.ext_getElem? fun j => ?_
    rw [Array.getElem?_modify, Array.take_eq_extract, Array.getElem?_extract]
    by_cases hj : j < a.nodes.size
    · -- an earlier node; the open one gets its parts back, the others never changed
      have hmin : j < min a.nodes.size a'.nodes.size - 0 := by
        have hsize := h.size
        omega
      rw [if_pos hmin, Nat.zero_add]
      by_cases hjid : id = j
      · subst hjid
        rw [if_pos rfl, hparts, hn]
        rfl
      · rw [if_neg hjid]
        exact h.frame j hj (Ne.symm hjid)
    · have hmin : ¬ j < min a.nodes.size a'.nodes.size - 0 := by omega
      have hjid : id ≠ j := by omega
      rw [if_neg hjid, if_neg hmin, Array.getElem?_eq_none (Nat.le_of_not_lt hj)]
  rw [hnodes]

theorem add_of_top (h : a.stack.head? = some id) (n : Node) :
    a.add n = ⟨(a.nodes.push n).modify id (Node.attach a.nodes.size), a.stack⟩ :=
  modifyTop_of_top (a := ⟨a.nodes.push n, a.stack⟩) h _

theorem size_nodes_add (h : a.stack.head? = some id) (n : Node) :
    (a.add n).nodes.size = a.nodes.size + 1 := by
  rw [add_of_top h, Array.size_modify, Array.size_push]

/-- The open node gets a part, and the new node is at the end. -/
theorem getElem?_add (h : a.stack.head? = some id) (hid : id < a.nodes.size) (n : Node) (j : Nat) :
    (a.add n).nodes[j]? =
      if j = id then a.nodes[id]?.map (Node.attach a.nodes.size)
      else if j = a.nodes.size then some n else a.nodes[j]? := by
  rw [add_of_top h, Array.getElem?_modify, Array.getElem?_push]
  by_cases hj : j = id
  · subst hj
    rw [if_pos rfl, if_pos rfl, if_neg (Nat.ne_of_lt hid)]
  · rw [if_neg hj, if_neg (Ne.symm hj)]

/-- A leaf becomes the last part of the open node. -/
theorem Open.add (h : Open id outside ts a) {n : Node} {t : Tree}
    (hleaf : ∀ (nodes : Array Node) (j : Nat), nodes[j]? = some n → StoredAt nodes t j [j]) :
    Open id outside (ts ++ [t]) (a.add n) ∧ Extends id a (a.add n) := by
  obtain ⟨m, ids, hm, hids, hperm⟩ := h.stored
  have hid : id < a.nodes.size := (Array.getElem?_eq_some_iff.1 hm).1
  have hat := getElem?_add h.top hid n
  have hstack : (a.add n).stack = a.stack := by rw [add_of_top h.top]
  have htop : (a.add n).nodes[id]? = some (m.attach a.nodes.size) := by
    rw [hat, if_pos rfl, hm]
    rfl
  refine ⟨⟨hstack ▸ h.top, m.attach a.nodes.size, ids ++ [a.nodes.size], htop, ?_, ?_⟩, ?_⟩
  · -- the leaf is stored at the end, and the parts before it stay where they were
    refine .append (hids.congr fun j hj => ?_) (.singleton (hleaf _ _ ?_))
    · have hj' := lt_and_ne_of_perm hperm (List.mem_append_left _ hj)
      rw [hat, if_neg hj'.2, if_neg (Nat.ne_of_lt hj'.1)]
    · rw [hat, if_neg (Nat.ne_of_gt hid), if_pos rfl]
  · rw [size_nodes_add h.top, List.range_succ]
    refine List.Perm.trans ?_ (hperm.append_right _)
    rw [List.cons_append, List.append_assoc, List.append_assoc]
    exact ((List.perm_append_comm).append_left ids).cons id
  · refine ⟨hstack, ?_, fun j hj hne => ?_, fun k hk => ?_⟩
    · rw [size_nodes_add h.top]
      exact Nat.le_succ _
    · rw [hat, if_neg hne, if_neg (Nat.ne_of_lt hj)]
    · rw [hm] at hk
      cases hk
      exact ⟨_, htop⟩

/-! ### Opening and closing a node -/

/-- The second arena is the first one with a node opened at the end: the open
node at `id` keeps some parts and gets the new one after them, which adopts
others. -/
structure Opened (id : Nat) (kept adopted : List Nat) (rule : Rule) (first : Nat)
    (a a' : Arena) : Prop where
  stack : a'.stack = a.nodes.size :: a.stack
  size : a'.nodes.size = a.nodes.size + 1
  parent : ∀ n, a.nodes[id]? = some n →
    a'.nodes[id]? = some { n with children := kept ++ [a.nodes.size] }
  node : a'.nodes[a.nodes.size]? = some (.opened rule first adopted)
  frame : ∀ j < a.nodes.size, j ≠ id → a'.nodes[j]? = a.nodes[j]?

section Opening

variable {kept adopted idsKept idsAdopted : List Nat} {rule : Rule} {first : Nat}
  {us : List Tree} {a' : Arena} {n : Node}

/-- The new node is open and has the adopted trees as its parts. -/
theorem Opened.open (h : Opened id kept adopted rule first a a')
    (hadopted : StoredAll a.nodes us adopted idsAdopted)
    (hperm : (id :: (idsKept ++ idsAdopted ++ outside)).Perm (List.range a.nodes.size)) :
    Open a.nodes.size (id :: (idsKept ++ outside)) us a' := by
  refine ⟨by rw [h.stack]; rfl, _, idsAdopted, h.node, hadopted.congr fun j hj => ?_, ?_⟩
  · have hj' := lt_and_ne_of_perm hperm
      (List.mem_append_left _ (List.mem_append_right _ hj))
    exact h.frame j hj'.1 hj'.2
  · refine List.perm_iff_count.2 fun x => ?_
    have hx := List.perm_iff_count.1 hperm x
    simp only [h.size, List.range_succ, List.count_cons, List.count_append, List.count_nil]
      at hx ⊢
    omega

/-- Closing the new node makes it the last part of the node at `id`. -/
theorem Opened.close (h : Opened id kept adopted rule first a a')
    (htop : a.stack.head? = some id) (hn : a.nodes[id]? = some n)
    (hkept : StoredAll a.nodes ts kept idsKept)
    (hperm : (id :: (idsKept ++ idsAdopted ++ outside)).Perm (List.range a.nodes.size))
    {a'' : Arena} (hext : Extends a.nodes.size a' a'')
    (hopen : Open a.nodes.size (id :: (idsKept ++ outside)) us a'') (last : Option Nat) :
    Open id outside (ts ++ [.closed rule first last us]) (a''.close a.nodes.size last) ∧
      Extends id a (a''.close a.nodes.size last) := by
  obtain ⟨m, ids, hm, hids, hperm'⟩ := hopen.stored
  obtain ⟨parts, hparts⟩ := hext.parts _ h.node
  -- the node at the end is still the one that was opened, up to its parts
  rw [hm] at hparts
  cases hparts
  have hid : id < a.nodes.size := (Array.getElem?_eq_some_iff.1 hn).1
  have hgrows : a.nodes.size < a''.nodes.size :=
    Nat.lt_of_lt_of_le (by rw [h.size]; omega) hext.size
  have hstack : (a''.close a.nodes.size last).stack = a.stack := by
    show a''.stack.tail = a.stack
    rw [hext.stack, h.stack, List.tail_cons]
  have hat : ∀ j, j ≠ a.nodes.size →
      (a''.close a.nodes.size last).nodes[j]? = a''.nodes[j]? := by
    intro j hj
    show (a''.nodes.modify _ _)[j]? = _
    rw [Array.getElem?_modify, if_neg (Ne.symm hj)]
  have hnew : (a''.close a.nodes.size last).nodes[a.nodes.size]? =
      some ⟨.rule rule, first, last.filter (first ≤ ·), parts⟩ := by
    show (a''.nodes.modify _ _)[_]? = _
    rw [Array.getElem?_modify, if_pos rfl, hm]
    rfl
  have hframe : ∀ j < a.nodes.size, j ≠ id →
      (a''.close a.nodes.size last).nodes[j]? = a.nodes[j]? := by
    intro j hj hne
    rw [hat j (Nat.ne_of_lt hj), hext.frame j (by rw [h.size]; omega) (Nat.ne_of_lt hj),
      h.frame j hj hne]
  have hparent : (a''.close a.nodes.size last).nodes[id]? =
      some { n with children := kept ++ [a.nodes.size] } := by
    rw [hat id (Nat.ne_of_lt hid), hext.frame id (by rw [h.size]; omega) (Nat.ne_of_lt hid),
      h.parent n hn]
  refine ⟨⟨hstack ▸ htop, _, idsKept ++ (a.nodes.size :: ids), hparent, ?_, ?_⟩, hstack, ?_, hframe,
    ?_⟩
  · refine .append (hkept.congr fun j hj => ?_)
      (.singleton (.node hnew (hids.congr fun j hj => ?_)))
    · have hj' := lt_and_ne_of_perm hperm
        (List.mem_append_left _ (List.mem_append_left _ hj))
      exact hframe j hj'.1 hj'.2
    · exact hat j (lt_and_ne_of_perm hperm' (List.mem_append_left _ hj)).2
  · -- each position is still used once: what was outside the new node is inside again
    refine List.perm_iff_count.2 fun x => ?_
    have hx := List.perm_iff_count.1 hperm' x
    simp only [Arena.close, Array.size_modify, List.count_cons, List.count_append] at hx ⊢
    omega
  · simp only [Arena.close, Array.size_modify]
    omega
  · intro k hk
    rw [hn] at hk
    cases hk
    exact ⟨_, hparent⟩

theorem opened_enter (htop : a.stack.head? = some id) (hn : a.nodes[id]? = some n)
    (rule : Rule) (first : Nat) (adopted : List Nat) :
    Opened id n.children adopted rule first a (a.enter (.opened rule first adopted)) := by
  have hid : id < a.nodes.size := (Array.getElem?_eq_some_iff.1 hn).1
  have hat : ∀ j, (a.enter (.opened rule first adopted)).nodes[j]? = _ := getElem?_add htop hid _
  refine ⟨rfl, size_nodes_add htop _, fun m hm => ?_, ?_, fun j hj hne => ?_⟩
  · rw [hn] at hm
    cases hm
    rw [hat, if_pos rfl, hn]
    rfl
  · rw [hat, if_neg (Nat.ne_of_gt hid), if_pos rfl]
  · rw [hat, if_neg hne, if_neg (Nat.ne_of_lt hj)]

/-- A node around the last part takes its place. -/
theorem opened_enterAroundLast (htop : a.stack.head? = some id) (hn : a.nodes[id]? = some n)
    (rule : Rule) (current : Nat) :
    Opened id n.children.dropLast n.children.getLast?.toList rule
      (((n.children.getLast?.bind (a.nodes[·]?)).map Node.first).getD current) a
      (a.enterAroundLast rule current) := by
  have hdetach : a.modifyTop Node.detach = ⟨a.nodes.modify id Node.detach, a.stack⟩ :=
    modifyTop_of_top htop _
  have hn' : (a.modifyTop Node.detach).nodes[id]? = some n.detach := by
    rw [hdetach, Array.getElem?_modify, if_pos rfl, hn]
    rfl
  have htop' : (a.modifyTop Node.detach).stack.head? = some id := by
    rw [hdetach]
    exact htop
  have hsize : (a.modifyTop Node.detach).nodes.size = a.nodes.size := by
    rw [hdetach, Array.size_modify]
  -- with the last part detached, the new node is opened as any other
  rw [enterAroundLast, topChildren_of_top htop hn]
  have h := opened_enter htop' hn' rule
    (((n.children.getLast?.bind (a.nodes[·]?)).map Node.first).getD current)
    n.children.getLast?.toList
  refine ⟨?_, hsize ▸ h.size, fun m hm => ?_, hsize ▸ h.node, fun j hj hne => ?_⟩
  · rw [h.stack, hsize, hdetach]
  · rw [hn] at hm
    cases hm
    rw [h.parent _ hn', hsize]
    rfl
  · rw [h.frame j (hsize ▸ hj) hne, hdetach, Array.getElem?_modify, if_neg (Ne.symm hne)]

theorem enterAround_of_top (h : a.stack.head? = some id) (rule : Rule) (current : Nat) :
    a.enterAround rule current = a.enterAroundLast rule current := by
  rw [enterAround]
  split
  case h_1 hstack =>
    rw [hstack] at h
    cases h
  case h_2 => rfl

theorem aroundId_of_top (h : a.stack.head? = some id) : a.aroundId = a.nodes.size := by
  rw [aroundId]
  split
  case h_1 hstack =>
    rw [hstack] at h
    cases h
  case h_2 => rfl

/-- A node that is opened in the open node and closed again. -/
theorem Open.enter (h : Open id outside ts a) (rule : Rule) (first : Nat) :
    ∃ inner, Open a.nodes.size inner [] (a.enter (.opened rule first [])) ∧
      ∀ us a' last, Extends a.nodes.size (a.enter (.opened rule first [])) a' →
        Open a.nodes.size inner us a' →
          Open id outside (ts ++ [.closed rule first last us]) (a'.close a.nodes.size last) ∧
            Extends id a (a'.close a.nodes.size last) := by
  obtain ⟨n, ids, hn, hids, hperm⟩ := h.stored
  have hopened : Opened id n.children [] rule first a (a.enter (.opened rule first [])) :=
    opened_enter h.top hn rule first []
  have hperm' : (id :: (ids ++ [] ++ outside)).Perm (List.range a.nodes.size) := by
    rw [List.append_nil]
    exact hperm
  refine ⟨_, hopened.open .nil hperm', fun us a' last hext hopen => ?_⟩
  exact hopened.close h.top hn hids hperm' hext hopen last

/-- A node that is opened around the last part of the open node and closed again. -/
theorem Open.enterAround (h : Open id outside ts a) (rule : Rule) (current : Nat) :
    ∃ inner, Open a.aroundId inner ts.getLast?.toList (a.enterAround rule current) ∧
      ∀ us a' last, Extends a.aroundId (a.enterAround rule current) a' →
        Open a.aroundId inner us a' →
          Open id outside
            (ts.dropLast ++ [.closed rule (Tree.firstAround current ts) last us])
            (a'.close a.aroundId last) ∧
          Extends id a (a'.close a.aroundId last) := by
  rw [aroundId_of_top h.top, enterAround_of_top h.top]
  obtain ⟨n, ids, hn, hids, hperm⟩ := h.stored
  have hopened := opened_enterAroundLast h.top hn rule current
  rcases List.eq_nil_or_concat' ts with rfl | ⟨before, t, rfl⟩
  · -- there is nothing to build around, and a node without parts is opened
    obtain ⟨hnil, rfl⟩ := hids.parts_eq_nil
    rw [hnil] at hopened hids
    have hperm' : (id :: ([] ++ [] ++ outside)).Perm (List.range a.nodes.size) := hperm
    refine ⟨_, hopened.open .nil hperm', fun us a' last hext hopen => ?_⟩
    exact hopened.close h.top hn hids hperm' hext hopen last
  · obtain ⟨parts, part, idsKept, idsAdopted, hparts, rfl, hkept, hlast⟩ := hids.concat
    obtain ⟨m, hm, hfirst⟩ := hlast.exists_node
    rw [hparts, List.dropLast_concat, List.getLast?_concat] at hopened
    simp only [Option.bind_some, hm, Option.map_some, Option.getD_some, hfirst] at hopened
    simp only [Tree.firstAround, List.getLast?_concat, List.dropLast_concat, Option.map_some,
      Option.getD_some]
    refine ⟨_, hopened.open (.singleton hlast) hperm, fun us a' last hext hopen => ?_⟩
    exact hopened.close h.top hn hkept hperm hext hopen last

end Opening

end Moves

/-! ### The root -/

/-- No node is open, and all nodes belong to the tree that is stored at the root. -/
structure Rooted (t : Tree) (a : Arena) : Prop where
  stack : a.stack = []
  stored : ∃ ids, StoredAt a.nodes t 0 ids ∧ ids.Perm (List.range a.nodes.size)

section Root

variable {rule : Rule} {first : Nat} {adopted : List Nat} {us : List Tree} {a a' : Arena}

/-- Closing the root. -/
theorem rooted_close (hstack : a.stack = [0])
    (hnode : a.nodes[0]? = some (.opened rule first adopted)) (hext : Extends 0 a a')
    (hopen : Open 0 [] us a') (last : Option Nat) :
    Rooted (.closed rule first last us) (a'.close 0 last) := by
  obtain ⟨m, ids, hm, hids, hperm⟩ := hopen.stored
  obtain ⟨parts, hparts⟩ := hext.parts _ hnode
  rw [hm] at hparts
  cases hparts
  refine ⟨?_, 0 :: ids, .node ?_ (hids.congr fun j hj => ?_), ?_⟩
  · show a'.stack.tail = []
    rw [hext.stack, hstack, List.tail_cons]
  · show (a'.nodes.modify _ _)[_]? = _
    rw [Array.getElem?_modify, if_pos rfl, hm]
    rfl
  · have hne := (lt_and_ne_of_perm hperm (List.mem_append_left _ hj)).2
    show (a'.nodes.modify _ _)[j]? = _
    rw [Array.getElem?_modify, if_neg (Ne.symm hne)]
  · rw [List.append_nil] at hperm
    simp only [Arena.close, Array.size_modify]
    exact hperm

/-- The first node is the root. -/
theorem open_root (rule : Rule) (first : Nat) :
    Open 0 [] [] (empty.enter (.opened rule first [])) ∧
      ∀ us a' last, Extends 0 (empty.enter (.opened rule first [])) a' → Open 0 [] us a' →
        Rooted (.closed rule first last us) (a'.close 0 last) :=
  ⟨⟨rfl, _, [], rfl, .nil, .refl _⟩,
    fun _ _ last hext hopen => rooted_close rfl rfl hext hopen last⟩

/-- A node around the root takes over its position. -/
theorem Rooted.enterAround {t : Tree} (h : Rooted t a) (rule : Rule) (current : Nat) :
    Open 0 [] [t] (a.enterAround rule current) ∧
      ∀ us a' last, Extends 0 (a.enterAround rule current) a' → Open 0 [] us a' →
        Rooted (.closed rule t.first last us) (a'.close a.aroundId last) := by
  obtain ⟨hstack, ids, hids, hperm⟩ := h
  have hid : a.aroundId = 0 := by rw [aroundId, hstack]
  have hroot : a.enterAround rule current = a.enterAroundRoot rule current := by
    rw [Arena.enterAround, hstack]
  rw [hid, hroot]
  obtain ⟨n, hn, hfirst⟩ := hids.exists_node
  have hsize : 0 < a.nodes.size := (Array.getElem?_eq_some_iff.1 hn).1
  have haround : a.enterAroundRoot rule current =
      ⟨(a.nodes.set! 0 (.opened rule t.first [a.nodes.size])).push n, [0]⟩ := by
    rw [Arena.enterAroundRoot, hn, hstack, ← hfirst]
  have hat : ∀ j, (a.enterAroundRoot rule current).nodes[j]? =
      if j = a.nodes.size then some n
      else if j = 0 then some (.opened rule t.first [a.nodes.size]) else a.nodes[j]? := by
    intro j
    rw [haround, Array.getElem?_push, Array.set!_eq_setIfInBounds, Array.size_setIfInBounds,
      Array.getElem?_setIfInBounds]
    by_cases hj : j = 0
    · subst hj
      rw [if_pos rfl, if_pos hsize, if_pos rfl]
    · rw [if_neg (Ne.symm hj), if_neg hj]
  have hnode : (a.enterAroundRoot rule current).nodes[0]? =
      some (.opened rule t.first [a.nodes.size]) := by
    rw [hat, if_neg (Nat.ne_of_lt hsize), if_pos rfl]
  rw [hids.ids_eq] at hperm
  have hperm' : (0 :: (ids.tail ++ [])).Perm (List.range a.nodes.size) := by
    rw [List.append_nil]
    exact hperm
  -- the old root is stored at the end of the table now, its parts where they were
  refine ⟨⟨?_, _, a.nodes.size :: ids.tail, hnode, .singleton (hids.move ?_ fun j hj => ?_), ?_⟩,
    fun us a' last hext hopen => rooted_close ?_ hnode hext hopen last⟩
  · rw [haround]
    rfl
  · rw [hat, if_pos rfl, hn]
  · have hj' := lt_and_ne_of_perm hperm' (List.mem_append_left _ hj)
    rw [hat, if_neg (Nat.ne_of_lt hj'.1), if_neg hj'.2]
  · rw [haround, Array.size_push, Array.set!_eq_setIfInBounds, Array.size_setIfInBounds,
      List.range_succ, List.append_nil]
    exact (List.Perm.swap _ _ _).trans
      ((hperm.cons _).trans (List.perm_append_singleton _ _).symm)
  · rw [haround]

end Root

end Arena

end MySqlAnalysis
