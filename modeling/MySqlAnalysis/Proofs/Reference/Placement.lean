import MySqlAnalysis.Proofs.Analysis.TwoPass
import MySqlAnalysis.Proofs.Grammar.Filled
import MySqlAnalysis.Proofs.Grammar.NodeSpans
import MySqlAnalysis.Proofs.Reference.WellFormed
import MySqlAnalysis.Proofs.Token.Extent
import MySqlAnalysis.Proofs.Token.Words

/-!
# Where references stand

A reference is placed when its offsets lie on characters of the text and the name it
carries is what stands there, without quotes (`Reference.Placed`). The trees of a
document tell their text as soon as they have a leaf (`Document.Faithful.shows`), and
all kinds of references but one are only added for such trees. The alias of a select
item is also added when its name was not read; it is then empty and stands at the
token that comes next, and these are the only references that are not placed
(`Config.analyze_places`).
-/

set_option autoImplicit false

namespace MySqlAnalysis

open Text Grammar

/-! ### Placed references -/

/-- The name that a mention carries; keywords and values carry none. -/
def Mention.name? : Mention → Option String
  | .function name => some name
  | .schema name => some name
  | .table m => some m.name
  | .column m => some m.name
  | .aliasName name _ => some name
  | .keyword _ => none
  | .value _ => none

/-- The reference lies on characters of the text, and the name it carries is what
stands there without quotes. -/
def Reference.Placed (source : String) (r : Reference) : Prop :=
  ∃ part, Extent source.toList r.start r.stop part ∧
    ∀ name ∈ r.mention.name?, name = String.ofList (unquote part)

/-- The reference is the alias of a select item whose name was not read. -/
def Reference.Unread (d : Document) (r : Reference) : Prop :=
  ∃ s ∈ d.sites, s.here.tree.isRule .selectAlias = true ∧
    ∃ name, s.here.lastChild? = some name ∧ name.tree.leaves = [] ∧
      r.start = d.start name.tree ∧ r.stop = d.start name.tree ∧
      ∃ target, r.mention = .aliasName "" target

theorem Text.byteLength_takeBytes {n : Nat} {cs part : List Char}
    (h : takeBytes n cs = some part) : byteLength part = n := by
  fun_induction takeBytes n cs generalizing part with
  | case1 => cases h; rfl
  | case2 => cases h
  | case3 n c cs hle ih =>
      obtain ⟨rest, hrest, rfl⟩ := Option.map_eq_some_iff.1 h
      rw [byteLength_cons, ih hrest]
      omega
  | case4 => cases h

theorem Extent.byteLength_eq {cs part : List Char} {start stop : Nat}
    (h : Extent cs start stop part) : byteLength part = stop + 1 - start := by
  have hslice := h.slice
  rw [slice?] at hslice
  split at hslice
  · obtain ⟨rest, -, htake⟩ := Option.bind_eq_some_iff.1 hslice
    exact byteLength_takeBytes htake
  · cases hslice

/-- One character is not a pair of quotes. -/
theorem Text.unquote_ne_nil {part : List Char} (h : byteLength part = 1) : unquote part ≠ [] := by
  match part with
  | [] => cases h
  | [c] => simp [unquote]
  | c :: c' :: rest =>
      have hc := c.utf8Size_pos
      have hc' := c'.utf8Size_pos
      rw [byteLength_cons, byteLength_cons] at h
      omega

/-- A name that was not read is nowhere in the text. -/
theorem Reference.Unread.not_placed {d : Document} {r : Reference} (h : r.Unread d) :
    ¬ r.Placed d.source := by
  obtain ⟨s, -, -, name, -, -, hstart, hstop, target, hmention⟩ := h
  rintro ⟨part, hextent, hname⟩
  have hempty := hname "" (by simp [hmention, Mention.name?])
  have hlength := hextent.byteLength_eq
  rw [hstop, hstart, Nat.add_sub_cancel_left] at hlength
  refine unquote_ne_nil hlength ?_
  simpa using (congrArg String.toList hempty).symm

/-! ### Trees and their text -/

/-- A document whose tokens are those of its text and whose tree was read from them. -/
structure Document.Faithful (dialect : Dialect) (d : Document) : Prop where
  tokens : d.tokens = (tokenize dialect d.source).toArray
  rests : ∀ {root : Tree} {l : Located} {above : List Located}, d.root = some root →
    Lineage root l above → l.tree.rule?.isSome = true → l.tree.isRule .query = false →
      l.tree.Rests (significant (tokenize dialect d.source))
  filled : ∀ root ∈ d.root, root.Every Filled

theorem Config.analyze_faithful (c : Config) (start : StartRule) (text : String) :
    (c.analyze start text).document.Faithful c.dialect where
  tokens := rfl
  rests {root l above} hroot hl hrule hquery := by
    have hparse : (c.parseTokens start (tokenize c.dialect text)).root = some root := hroot
    rw [Config.parseTokens_eq_exact (tokenize_listed c.dialect text)] at hparse
    exact parse_rests (tokenize_listed c.dialect text) hparse hl hrule hquery
  filled := by
    show ∀ root ∈ (c.parseTokens start (tokenize c.dialect text)).root, root.Every Filled
    rw [Config.parseTokens_eq_exact (tokenize_listed c.dialect text)]
    exact parse_filled c.exactOptions start _

/-- The place of a tree lies on characters of the text, and the text of the tree is
what stands there. -/
def Document.Shows (d : Document) (t : Tree) : Prop :=
  ∃ part, Extent d.source.toList (d.start t) (d.stop t) part ∧ d.text t = String.ofList part

namespace Document.Faithful

variable {dialect : Dialect} {d : Document}

/-- A leaf is a token of the text that does not end the input. -/
theorem getElem?_leaf (h : d.Faithful dialect) {t : Tree}
    (ht : t.Rests (significant (tokenize dialect d.source))) {i : Nat} (hi : i ∈ t.leaves) :
    ∃ u, d.tokens[i]? = some u ∧ (tokenize dialect d.source)[i]? = some u ∧ u.isEof = false := by
  obtain ⟨u, hu, hindex, heof⟩ := ht.real i hi
  have hget : (tokenize dialect d.source)[i]? = some u := by
    rw [← hindex]
    exact (tokenize_listed dialect d.source).getElem?_index (List.mem_filter.1 hu).1
  refine ⟨u, ?_, hget, heof⟩
  rw [h.tokens, List.getElem?_toArray]
  exact hget

/-- A tree with a leaf tells its text. -/
theorem shows (h : d.Faithful dialect) {t : Tree}
    (ht : t.Rests (significant (tokenize dialect d.source))) (hleaves : t.leaves ≠ []) :
    d.Shows t := by
  obtain ⟨next, hspans⟩ := ht.spans
  obtain ⟨i, rest, hcons⟩ := List.exists_cons_of_ne_nil hleaves
  obtain ⟨j, hj⟩ := Option.isSome_iff_exists.1 (List.getLast?_isSome.2 hleaves)
  have hfirst : t.first = i := by
    rw [hspans.first_eq, hcons]
    rfl
  have hlast : t.last? = some j := hspans.last?_eq.trans hj
  have hij : i ≤ j := by
    have hmem : j ∈ i :: rest := hcons ▸ List.mem_of_getLast? hj
    have hsorted := hcons ▸ ht.sorted
    rcases List.mem_cons.1 hmem with rfl | hmem
    · exact le_rfl
    · exact Nat.le_of_lt (List.rel_of_pairwise_cons hsorted hmem)
  obtain ⟨u, hu, hu', hueof⟩ := h.getElem?_leaf ht (hcons ▸ List.mem_cons_self : i ∈ t.leaves)
  obtain ⟨v, hv, hv', hveof⟩ := h.getElem?_leaf ht (List.mem_of_getLast? hj)
  obtain ⟨part, hextent⟩ := tokenize_extent hu' hv' hij hueof hveof
  have hfirstToken : d.firstToken? t = some u := by
    rw [firstToken?, hfirst, hu]
  have hlastToken : d.lastToken? t = some v := by
    rw [lastToken?, hlast, Option.bind_some, hv]
  refine ⟨part, ?_, ?_⟩
  · rw [start, stop, hfirstToken, hlastToken]
    exact hextent
  · rw [text, hfirstToken, hlastToken]
    simp [hveof, hextent.slice]

/-- The nodes that are left, those of scripts apart, have the spans of their leaves. -/
theorem site_rests (h : d.Faithful dialect) {s : Site} (hs : s ∈ d.sites) {rule : Rule}
    (hrule : s.here.tree.rule? = some rule) (hne : rule ≠ .query) :
    s.here.tree.Rests (significant (tokenize dialect d.source)) := by
  obtain ⟨root, hroot, hl⟩ := sites_lineage hs
  refine h.rests hroot hl (by rw [hrule]; rfl) ?_
  simpa [Tree.isRule, hrule] using hne

theorem site_filled (h : d.Faithful dialect) {s : Site} (hs : s ∈ d.sites) :
    s.here.tree.Every Filled := by
  obtain ⟨root, hroot, hl⟩ := sites_lineage hs
  exact hl.every (h.filled root hroot)

/-- The identifiers of a node were read. -/
theorem shows_identifier (h : d.Faithful dialect) {l part : Located}
    (hl : l.tree.Rests (significant (tokenize dialect d.source)))
    (hpart : part ∈ d.identifiers l) : d.Shows part.tree := by
  obtain ⟨hchild, hread⟩ := List.mem_filter.1 hpart
  rw [Bool.and_eq_true] at hread
  have hrests := hl.of_mem (Located.mem_of_mem_children hchild)
  refine h.shows hrests fun hnil => ?_
  obtain ⟨next, hspans⟩ := hrests.spans
  rw [lastToken?, hspans.last?_eq, hnil] at hread
  cases hread.2

/-- A tree with one leaf stands where its token does. -/
theorem shows_leaf (h : d.Faithful dialect) {t : Tree} {i : Nat}
    (ht : t.Rests (significant (tokenize dialect d.source))) (hi : t.leaves = [i]) :
    ∃ u ∈ tokenize dialect d.source, d.firstToken? t = some u ∧
      Extent d.source.toList (d.start t) (d.stop t) u.text.toList := by
  obtain ⟨next, hspans⟩ := ht.spans
  obtain ⟨u, hu, hu', heof⟩ := h.getElem?_leaf ht (hi ▸ List.mem_cons_self : i ∈ t.leaves)
  have hfirst : d.firstToken? t = some u := by
    rw [firstToken?, hspans.first_eq, hi]
    exact hu
  have hlast : d.lastToken? t = some u := by
    rw [lastToken?, hspans.last?_eq, hi]
    exact hu
  refine ⟨u, List.mem_of_getElem? hu', hfirst, ?_⟩
  rw [start, stop, hfirst, hlast]
  exact tokenize_extent_self (List.mem_of_getElem? hu') heof

end Document.Faithful

/-- A part that read nothing starts at the leaf after it. -/
theorem Tree.Rests.first_eq_next {tokens : List Token} {t part leaf : Tree} {rest : List Tree}
    {i : Nat} (h : t.Rests tokens) (hparts : t.children = part :: leaf :: rest)
    (hnil : part.leaves = []) (hleaf : leaf.tokenIndex? = some i) : part.first = i := by
  cases t with
  | node rule first last parts =>
      cases hparts
      obtain ⟨next, -, -, hspans, -⟩ := h.spans
      rw [hspans.first_eq, hnil]
      cases leaf with
      | node => cases hleaf
      | _ =>
          cases hleaf
          rfl
  | _ => cases hparts

/-- An identifier that read something is one token. -/
theorem Tree.Every.leaves_identifier {t : Tree} (h : t.Every Filled)
    (hrule : t.isRule .identifier = true) (hread : t.leaves ≠ []) : ∃ i, t.leaves = [i] := by
  cases h with
  | token index => cases hrule
  | skipped index => cases hrule
  | node first last hnode hparts =>
      rcases hnode.1 (by simpa [isRule, rule?] using hrule) with rfl | ⟨i, rfl⟩
      · exact absurd rfl hread
      · exact ⟨i, rfl⟩

/-! ### Collecting -/

namespace Reference

variable {d : Document} {r : Reference}

/-- The reference is placed in the text, or it is an alias whose name was not read. -/
def Settled (d : Document) (r : Reference) : Prop :=
  r.Placed d.source ∨ r.Unread d

/-- Links do not matter. -/
theorem Settled.mapMention (h : r.Settled d) {f : Mention → Mention}
    (hname : ∀ m, (f m).name? = m.name?)
    (halias : ∀ name target, f (.aliasName name target) = .aliasName name target) :
    (r.mapMention f).Settled d := by
  rcases h with ⟨part, hextent, hpart⟩ |
    ⟨s, hs, hrule, name, hlast, hnil, hstart, hstop, target, hm⟩
  · refine .inl ⟨part, hextent, ?_⟩
    rw [Reference.mapMention, hname]
    exact hpart
  · refine .inr ⟨s, hs, hrule, name, hlast, hnil, hstart, hstop, target, ?_⟩
    rw [Reference.mapMention, hm, halias]

theorem name?_withAlias (i : Nat) (m : Mention) : (m.withAlias i).name? = m.name? := by
  cases m <;> rfl

theorem name?_withTable (t : Nat) (m : Mention) : (m.withTable t).name? = m.name? := by
  cases m <;> rfl

theorem settled_modify {rs : List Reference} (h : ∀ r ∈ rs, r.Settled d) (i : Nat)
    {f : Mention → Mention} (hname : ∀ m, (f m).name? = m.name?)
    (halias : ∀ name target, f (.aliasName name target) = .aliasName name target) :
    ∀ r ∈ rs.modify i (·.mapMention f), r.Settled d := by
  intro r hr
  obtain ⟨j, hj⟩ := List.mem_iff_getElem?.1 hr
  rw [List.getElem?_modify] at hj
  obtain ⟨r', hr', hj⟩ := Option.map_eq_some_iff.1 hj
  have hsettled := h r' (List.mem_of_getElem? hr')
  split at hj
  · rw [← hj]
    exact hsettled.mapMention hname halias
  · rw [← hj]
    exact hsettled

end Reference

/-- The references found so far are settled. -/
def Collector.Settled (d : Document) (c : Collector) : Prop :=
  ∀ r ∈ c.references, r.Settled d

namespace Collector.Settled

variable {d : Document} {c : Collector} {dialect : Dialect} {s : Site}

theorem add (h : c.Settled d) {place : Tree} {m : Mention}
    (hnew : ∀ id, Reference.Settled d ⟨id, d.start place, d.stop place, m⟩) :
    (c.add d place m).Settled d := by
  intro r hr
  rcases List.mem_append.1 hr with hr | hr
  · exact h r hr
  · rw [List.mem_singleton.1 hr]
    exact hnew _

/-- Adds what names a tree that tells its text. -/
theorem add_name (h : c.Settled d) {place : Tree} (hplace : d.Shows place) {m : Mention}
    (hm : ∀ name ∈ m.name?, name = d.name place) : (c.add d place m).Settled d := by
  obtain ⟨part, hextent, htext⟩ := hplace
  refine h.add fun id => .inl ⟨part, hextent, fun name hname => ?_⟩
  rw [hm name hname, Document.name, htext, String.toList_ofList]

theorem withAlias (h : c.Settled d) (i name : Nat) :
    (c.modify i (·.withAlias name)).Settled d :=
  Reference.settled_modify h i (Reference.name?_withAlias name) fun _ _ => rfl

theorem addSchema (h : c.Settled d) {name : Located} (hname : d.Shows name.tree) :
    (c.addSchema d name).Settled d :=
  h.add_name hname fun _ heq => (Option.some.inj heq).symm

theorem addTable (h : c.Settled d) {schema : Option Located} {name : Located}
    (hschema : ∀ l ∈ schema, d.Shows l.tree) (hname : d.Shows name.tree) (qualifier : Bool) :
    (c.addTable d schema name qualifier).Settled d := by
  have hbefore : ((schema.map (c.addSchema d)).getD c).Settled d := by
    cases schema with
    | none => exact h
    | some l => exact h.addSchema (hschema l rfl)
  exact hbefore.add_name hname fun _ heq => (Option.some.inj heq).symm

theorem addColumn (h : c.Settled d) {table : Option Nat} {name : Located}
    (hname : d.Shows name.tree) : (c.addColumn d s table name).Settled d :=
  h.add_name hname fun _ heq => (Option.some.inj heq).symm

section Leave

variable (hd : d.Faithful dialect) (hs : s ∈ d.sites)

include hd hs

theorem leaveTable (h : c.Settled d) {rule : Rule} (hrule : s.here.tree.rule? = some rule)
    (hne : rule ≠ .query) : (c.leaveTable d s).Settled d := by
  have hshows : ∀ part ∈ d.identifiers s.here, d.Shows part.tree := fun part hpart =>
    hd.shows_identifier (hd.site_rests hs hrule hne) hpart
  rw [Collector.leaveTable]
  split
  · next name hids => exact h.addTable (by simp) (hshows name (by simp [hids])) false
  · next schema name hids =>
    exact h.addTable (by simpa using hshows schema (by simp [hids]))
      (hshows name (by simp [hids])) false
  · exact h

theorem leaveSchema (h : c.Settled d) {rule : Rule} (hrule : s.here.tree.rule? = some rule)
    (hne : rule ≠ .query) : (c.leaveSchema d s).Settled d := by
  rw [Collector.leaveSchema]
  split
  · next name rest hids =>
    exact h.addSchema (hd.shows_identifier (hd.site_rests hs hrule hne) (by simp [hids]))
  · exact h

theorem leaveTableAlias (h : c.Settled d) (hrule : s.here.tree.rule? = some .tableAlias) :
    (c.leaveTableAlias d s).Settled d := by
  rw [Collector.leaveTableAlias]
  split
  · next table name rest _ hids =>
    have hname : d.Shows name.tree :=
      hd.shows_identifier (hd.site_rests hs hrule (by simp)) (by simp [hids])
    have hadded :
        (c.add d name.tree (.aliasName (d.name name.tree) (.table table))).Settled d :=
      h.add_name hname fun _ heq => (Option.some.inj heq).symm
    exact hadded.withAlias _ _
  · exact h

theorem leaveColumn (h : c.Settled d) (hrule : s.here.tree.rule? = some .columnRef) :
    (c.leaveColumn d s).Settled d := by
  have hshows : ∀ part ∈ d.identifiers s.here, d.Shows part.tree := fun part hpart =>
    hd.shows_identifier (hd.site_rests hs hrule (by simp)) hpart
  rw [Collector.leaveColumn]
  split
  · next name hids => exact h.addColumn (hshows name (by simp [hids]))
  · next table name hids =>
    exact (h.addTable (by simp) (hshows table (by simp [hids])) true).addColumn
      (hshows name (by simp [hids]))
  · next schema table name hids =>
    exact (h.addTable (by simpa using hshows schema (by simp [hids]))
      (hshows table (by simp [hids])) true).addColumn (hshows name (by simp [hids]))
  · exact h

/-- The last part of the alias of a select item need not have been read. -/
theorem leaveSelectAlias (h : c.Settled d) (hrule : s.here.tree.rule? = some .selectAlias) :
    (c.leaveSelectAlias d s).Settled d := by
  rw [Collector.leaveSelectAlias]
  split
  · next parent name hparent hlast =>
    have hmem : name ∈ s.here.children := List.mem_of_getLast? hlast
    have hrests := (hd.site_rests hs hrule (by simp)).of_mem (Located.mem_of_mem_children hmem)
    have hadded : ∀ target,
        (c.add d name.tree (.aliasName (d.name name.tree) target)).Settled d := by
      intro target
      by_cases hnil : name.tree.leaves = []
      · obtain ⟨next, hspans⟩ := hrests.spans
        have hlastToken : d.lastToken? name.tree = none := by
          rw [Document.lastToken?, hspans.last?_eq, hnil]
          rfl
        have hstop : d.stop name.tree = d.start name.tree := by
          rw [Document.stop, hlastToken]
          rfl
        have hname : d.name name.tree = "" := by
          have htext : d.text name.tree = "" := by
            rw [Document.text, hlastToken]
            cases d.firstToken? name.tree <;> rfl
          rw [Document.name, htext]
          rfl
        rw [hname]
        exact h.add fun id => .inr ⟨s, hs, by simp [Tree.isRule, hrule], name, hlast, hnil, rfl,
          hstop, target, rfl⟩
      · exact h.add_name (hd.shows hrests hnil) fun _ heq => (Option.some.inj heq).symm
    dsimp only
    split
    · exact (hadded _).withAlias _ _
    · exact hadded _
  · exact h

/-- The literal of a predicate has a part when it has a value, and then a token. -/
theorem leavePredicate (h : c.Settled d) (hrule : s.here.tree.rule? = some .predicate) :
    (c.leavePredicate d s).Settled d := by
  rw [Collector.leavePredicate]
  split
  · exact h
  · next literal hliteral =>
    split
    · exact h
    · next dataType text hvalue =>
      simp only [Located.plainLiteral?, Option.bind_eq_bind, Option.bind_eq_some_iff] at hliteral
      obtain ⟨bits, hbits, simple, hsimple, hfind⟩ := hliteral
      have hbits := Located.mem_of_mem_children (Located.of_only? hbits).1
      have hsimple := Located.mem_of_mem_children (Located.of_only? hsimple).1
      have hmem := Located.mem_of_mem_children (List.mem_of_find?_eq_some hfind)
      have hrests : literal.tree.Rests (significant (tokenize dialect d.source)) :=
        (((hd.site_rests hs hrule (by simp)).of_mem hbits).of_mem hsimple).of_mem hmem
      have hfilled : literal.tree.Every Filled :=
        (((hd.site_filled hs).of_mem hbits).of_mem hsimple).of_mem hmem
      have hliteral : literal.tree.rule? = some .literal := by
        simpa [Tree.isRule] using List.find?_some hfind
      -- the value of a literal is read off its first part
      have hparts : literal.tree.children ≠ [] := by
        intro hnil
        simp [Document.literalValue?, Located.child?, hnil] at hvalue
      have hleaves : literal.tree.leaves ≠ [] := by
        have := ((hfilled.children hliteral).2 rfl).resolve_left hparts
        cases ht : literal.tree with
        | node rule first last parts =>
            rw [ht] at this
            exact this
        | _ =>
            rw [ht] at hliteral
            cases hliteral
      refine h.add_name (hd.shows hrests hleaves) ?_
      intro _ heq
      cases heq

/-- The name of a function was read, as the parenthesis after it is no identifier. -/
theorem leaveFunction (h : c.Settled d) (hrule : s.here.tree.rule? = some .functionCall) :
    (c.leaveFunction d s).Settled d := by
  rw [Collector.leaveFunction]
  split
  · next callee parenthesis rest hparts =>
    split
    · next name opening hname hopening =>
      split
      · next hcall =>
        simp only [Bool.and_eq_true, beq_iff_eq] at hcall
        obtain ⟨⟨hcallee, hparen⟩, hidentifier⟩ := hcall
        have hmem : callee ∈ s.here.tree.children := by simp [hparts]
        have hrests := hd.site_rests hs hrule (by simp)
        have hread : callee.leaves ≠ [] := by
          intro hnil
          obtain ⟨i, hi, hget⟩ := Option.bind_eq_some_iff.1 hopening
          rw [Document.firstToken?, hrests.first_eq_next hparts hnil hi, hget] at hname
          cases hname
          rw [hparen] at hidentifier
          cases hidentifier
        obtain ⟨i, hi⟩ := ((hd.site_filled hs).of_mem hmem).leaves_identifier hcallee hread
        obtain ⟨u, hu, hfirst, hextent⟩ := hd.shows_leaf (hrests.of_mem hmem) hi
        rw [hname] at hfirst
        cases hfirst
        refine h.add fun id => .inl ⟨_, hextent, fun word hword => ?_⟩
        cases hword
        rw [tokenize_identifier_unquote hu hidentifier, String.ofList_toList]
      · exact h
    · exact h
  · exact h

theorem leave (h : c.Settled d) : (c.leave d s).Settled d := by
  rw [Collector.leave]
  split
  · next hrule => exact h.leaveTable hd hs hrule (by simp)
  · next hrule => exact h.leaveTable hd hs hrule (by simp)
  · next hrule => exact h.leaveSchema hd hs hrule (by simp)
  · next hrule => exact h.leaveSchema hd hs hrule (by simp)
  · next hrule => exact h.leaveTableAlias hd hs hrule
  · next hrule => exact h.leaveColumn hd hs hrule
  · next hrule => exact h.leaveSelectAlias hd hs hrule
  · next hrule => exact h.leavePredicate hd hs hrule
  · next hrule => exact h.leaveFunction hd hs hrule
  · exact h

end Leave

/-- A run over nodes of the document. -/
theorem foldl_leave (hd : d.Faithful dialect) (sites : List Site)
    (hsites : ∀ s ∈ sites, s ∈ d.sites) :
    ∀ c : Collector, c.Settled d → (sites.foldl (·.leave d ·) c).Settled d := by
  induction sites with
  | nil => exact fun c h => h
  | cons s sites ih =>
      intro c h
      exact ih (fun s' hs' => hsites s' (List.mem_cons_of_mem _ hs')) _
        (h.leave hd (hsites s List.mem_cons_self))

end Collector.Settled

/-! ### Links -/

theorem Collector.Settled.linked {d : Document} {c : Collector} (h : c.Settled d) :
    ∀ r ∈ c.linked, r.Settled d := by
  unfold Collector.linked
  refine List.foldlRecOn (motive := fun rs : List Reference => ∀ r ∈ rs, r.Settled d)
    c.pending _ h ?_
  intro rs hrs waiting _
  split
  · exact Reference.settled_modify hrs _ (Reference.name?_withTable _) fun _ _ => rfl
  · exact hrs

namespace Reference

variable {d : Document} {rs : List Reference}

theorem bindColumns_settled (h : ∀ r ∈ rs, r.Settled d) (table : Nat) :
    ∀ r ∈ bindColumns table rs, r.Settled d := by
  intro r hr
  obtain ⟨r', hr', rfl⟩ := List.mem_map.1 hr
  exact (h r' hr').mapMention (name?_withTable table) fun _ _ => rfl

theorem bindValues_settled (columns : List Nat) (rs : List Reference)
    (h : ∀ r ∈ rs, r.Settled d) : ∀ r ∈ bindValues columns rs, r.Settled d := by
  fun_induction bindValues columns rs with
  | case1 => exact h
  | case2 r rs v column more hv ih =>
      rw [List.forall_mem_cons] at h ⊢
      refine ⟨?_, ih h.2⟩
      rcases h.1 with ⟨part, hextent, -⟩ | ⟨_, _, _, _, _, _, _, _, _, hm⟩
      · refine .inl ⟨part, hextent, ?_⟩
        intro name hname
        cases hname
      · rw [hv] at hm
        cases hm
  | case3 columns r rs hne ih =>
      rw [List.forall_mem_cons] at h ⊢
      exact ⟨h.1, ih h.2⟩

theorem infer_settled (h : ∀ r ∈ rs, r.Settled d) : ∀ r ∈ infer rs, r.Settled d := by
  rw [infer]
  split
  · exact bindValues_settled _ _ (bindColumns_settled h _)
  · exact h

end Reference

/-! ### Analyses -/

theorem Document.Faithful.references_settled {dialect : Dialect} {d : Document}
    (h : d.Faithful dialect) : ∀ r ∈ d.references, r.Settled d := by
  refine Reference.infer_settled (Collector.Settled.linked ?_)
  rw [Collector.ofDocument, Collector.foldl_visit]
  exact .foldl_leave h d.sites (fun s hs => hs) .empty fun r hr => absurd hr List.not_mem_nil

/-- The references of every analysis, errors in the text included, lie on characters
of the text and carry the name that stands there; the only exceptions are aliases of
select items whose name was not read. -/
theorem Config.analyze_places (c : Config) (start : StartRule) (text : String) :
    ∀ r ∈ (c.analyze start text).references,
      r.Placed text ↔ ¬ r.Unread (c.analyze start text).document := by
  intro r hr
  rcases (c.analyze_faithful start text).references_settled r hr with hplaced | hunread
  · exact iff_of_true hplaced fun hunread => hunread.not_placed hplaced
  · exact iff_of_false hunread.not_placed fun hnot => hnot hunread

/-- The column of a text that ends too early is placed. -/
theorem Config.analyze_places_column :
    ∃ r ∈ (Config.standard.analyze .query "SELECT `a` AS").references,
      r.mention.isColumn = true ∧ r.Placed "SELECT `a` AS" := by
  have hcolumn : ∃ r ∈ (Config.standard.analyze .query "SELECT `a` AS").references,
      r.mention.isColumn = true := by
    decide +kernel
  obtain ⟨r, hr, hcolumn⟩ := hcolumn
  refine ⟨r, hr, hcolumn, (Config.analyze_places _ _ _ r hr).2 ?_⟩
  rintro ⟨_, _, _, _, _, _, _, _, target, hmention⟩
  rw [hmention] at hcolumn
  cases hcolumn

/-- The alias of a select item whose name was not read stands behind the text. -/
theorem Config.analyze_places_alias :
    ∃ r ∈ (Config.standard.analyze .query "SELECT a AS").references,
      r.stop = byteLength "SELECT a AS".toList ∧ ¬ r.Placed "SELECT a AS" := by
  have halias : ∃ r ∈ (Config.standard.analyze .query "SELECT a AS").references,
      r.stop = byteLength "SELECT a AS".toList := by
    decide +kernel
  obtain ⟨r, hr, hstop⟩ := halias
  refine ⟨r, hr, hstop, fun ⟨part, hextent, _⟩ => ?_⟩
  exact absurd hextent.lt (by rw [hstop]; exact Nat.lt_irrefl _)

end MySqlAnalysis
