import MySqlAnalysis.Proofs.Grammar.Acceptance
import MySqlAnalysis.Proofs.QueryType.Agreement

/-!
# Texts that start with a clean statement

A text without a parser error whose tree starts with a statement has that statement
accepted by the grammar, from the first significant token on
(`Config.exists_clean_statement`). What the classifier sees of the first tokens follows
from their kinds (`Analysis.kindAt`, `Step.ofSignificant_of_kindAt`).
-/

set_option autoImplicit false

namespace MySqlAnalysis

open Grammar

/-- The kind of a significant token, counted from `0`; past the last one the input ends. -/
def Analysis.kindAt (a : Analysis) (n : Nat) : TokenKind :=
  ((significant a.tokens)[n]?.map Token.kind).getD .eof

/-- The statement that a script starts with. -/
def Document.firstStatement? (d : Document) : Option Tree := do
  let root ← d.root
  let statement ← root.children.head?
  if statement.isRule .simpleStatement then some statement else none

theorem Document.leadingRule?_eq (d : Document) :
    d.leadingRule? = d.firstStatement?.bind Tree.leadingRule? := by
  simp only [leadingRule?, firstStatement?, Option.bind_eq_bind, Option.bind_assoc]
  congr 1
  funext root
  congr 1
  funext statement
  split
  · rfl
  · rfl

namespace Config

variable {c : Config} {text : String}

/-- The context in which a text is read with error recovery. -/
def context (c : Config) (text : String) : Context :=
  contextOf c.exactOptions (tokenize c.dialect text)

/-- The tokens of a text that the grammar sees. -/
def ahead (c : Config) (text : String) : List Token :=
  significant (tokenize c.dialect text)

theorem context_ended (c : Config) (text : String) : (c.context text).Ended (c.ahead text) :=
  contextOf_ended (tokenize_listed c.dialect text)

theorem mem_of_mem_ahead {t : Token} (h : t ∈ c.ahead text) : t ∈ tokenize c.dialect text :=
  (List.mem_filter.1 h).1

theorem analyze_kindAt (c : Config) (text : String) (n : Nat) :
    (c.analyze .query text).kindAt n = (c.context text).kindAt (c.ahead text) n := by
  have hending : (c.context text).ending.kind = .eof :=
    beq_iff_eq.1 (context_ended c text).ending
  rw [Analysis.kindAt, analyze_tokens, Context.kindAt, Context.peek]
  show ((c.ahead text)[n]?.map Token.kind).getD .eof = _
  cases (c.ahead text)[n]? with
  | none => exact hending.symm
  | some t => rfl

/-- The statement that a text without a parser error starts with is accepted, and its
leading rule tells what it starts with. -/
theorem exists_clean_statement (herror : (c.analyze .query text).diagnostics.parser = none)
    {statement : Tree}
    (hfirst : (c.analyze .query text).document.firstStatement? = some statement) :
    (∃ s u, s.ahead = c.ahead text ∧ s.built = [] ∧
      Accepts (c.context text) simpleStatementBody s u ∧ u.built = [statement] ∧
      boundaryKinds.contains ((c.context text).kindAt u.ahead 0) = true) ∧
    ∀ rule, statement.leadingRule? = some rule →
      Opens (c.context text) (c.ahead text) rule := by
  have hlisted := tokenize_listed c.dialect text
  simp only [Document.firstStatement?, Option.bind_eq_bind, Option.bind_eq_some_iff] at hfirst
  obtain ⟨root, hroot, first, hhead, hfirst⟩ := hfirst
  split at hfirst
  case isFalse => cases hfirst
  case isTrue hstatement =>
    cases hfirst
    have hparse : (parse c.exactOptions .query (tokenize c.dialect text)).root = some root := by
      rw [← parseTokens_eq_exact hlisted]
      exact hroot
    refine ⟨?_, fun rule hrule => parse_leading _ hlisted hparse hhead hstatement hrule⟩
    exact exists_accepted_statement (o := c.exactOptions) hlisted (reports_eq_nil herror) hparse
      hhead hstatement

end Config

/-! ### Words of every server -/

namespace Keyword

/-- The families of servers. -/
def families : List Family := [.v56, .v57, .v80]

theorem mem_families (f : Family) : f ∈ families := by
  cases f <;> simp [families]

/-- Whether a word is a keyword of every server. -/
def isCommon (k : Keyword) : Bool :=
  all.find? (·.word == k.word) == some k && families.all k.isAvailable &&
    k.word.toList.head? != some '_'

/-- Whether a word is a name on no server. -/
def isFirm (k : Keyword) : Bool :=
  families.all fun f => !(TokenKind.keyword k).isName f

variable {k : Keyword}

theorem common_of_isCommon (h : k.isCommon = true) : k.Common := by
  simp only [isCommon, Bool.and_eq_true, beq_iff_eq, bne_iff_ne, List.all_eq_true] at h
  exact ⟨h.1.1, fun f => h.1.2 f (mem_families f), h.2⟩

theorem isName_of_isFirm (h : k.isFirm = true) (f : Family) :
    (TokenKind.keyword k).isName f = false := by
  simpa using List.all_eq_true.1 h f (mem_families f)

section Spelling

variable {d : Dialect} {text : String} {t : Token} (ht : t ∈ tokenize d text)
  (hword : t.kind.isWord = true) (hcommon : k.isCommon = true)

include ht hword hcommon

/-- A word that spells a keyword of every server is that keyword. -/
theorem kind_of_upperText (h : t.upperText = k.word) : t.kind = .keyword k := by
  have hk := common_of_isCommon hcommon
  exact tokenize_kind_of_spelling ht hword (h ▸ hk.found) (hk.known _) hk.plain

/-- A name does not spell a word that is a keyword and no name on every server. -/
theorem upperText_ne_of_isName {f : Family} (hname : t.kind.isName f = true)
    (hfirm : k.isFirm = true) : t.upperText ≠ k.word := by
  intro heq
  rw [kind_of_upperText ht hword hcommon heq, isName_of_isFirm hfirm] at hname
  cases hname

end Spelling

end Keyword

/-! ### Steps and kinds -/

theorem Grammar.Context.Ended.of_isSuffix {c : Context} {a b : List Token} (h : c.Ended a)
    (hb : b <:+ a) : c.Ended b := by
  obtain ⟨read, rfl⟩ := hb
  exact h.of_suffix

namespace Step

/-- The step of a token of this kind, which is no unquoted identifier. -/
def ofKind : TokenKind → Step
  | .keyword k => ofKeyword k
  | kind => symbol kind

variable {d : Dialect} {text : String} {c : Context} {ahead : List Token}

/-- The steps from a token on are none at the end of the input, else that of the token
comes first. -/
theorem ofSignificant_drop (he : c.Ended ahead) (n : Nat) :
    (c.kindAt ahead n = .eof ∧ ofSignificant (ahead.drop n) = []) ∨
      ∃ t ∈ ahead, t.kind = c.kindAt ahead n ∧ t.kind ≠ .eof ∧
        ofSignificant (ahead.drop n) = ofToken t :: ofSignificant (ahead.drop (n + 1)) := by
  cases hdrop : ahead.drop n with
  | nil => exact .inl ⟨kindAt_of_drop_nil he.ending hdrop, rfl⟩
  | cons t ts =>
      obtain ⟨hkind, hrest⟩ := kindAt_of_drop_cons (c := c) hdrop
      by_cases heof : t.kind = .eof
      · exact .inl ⟨hkind.trans heof, by simp [ofSignificant, Token.isEof, heof]⟩
      · have ht : t ∈ ahead := List.mem_of_mem_drop (hdrop ▸ List.mem_cons_self)
        refine .inr ⟨t, ht, hkind.symm, heof, ?_⟩
        rw [hrest, ofSignificant_cons ts (by simpa [Token.isEof] using heof)]

theorem ofToken_eq_ofKind {t : Token} (ht : t ∈ tokenize d text) (h : t.kind ≠ .identifier) :
    ofToken t = ofKind t.kind := by
  cases hkind : t.kind with
  | keyword k => exact ofToken_keyword ht hkind
  | identifier => exact absurd hkind h
  | _ =>
      rw [ofToken, hkind]
      rfl

/-- The kind of a token ahead tells its step, unless it is an unquoted identifier. -/
theorem ofSignificant_of_kindAt (he : c.Ended ahead) (hmem : ∀ t ∈ ahead, t ∈ tokenize d text)
    {n : Nat} {kind : TokenKind} (h : c.kindAt ahead n = kind) (heof : kind ≠ .eof)
    (hidentifier : kind ≠ .identifier) :
    ofSignificant (ahead.drop n) = ofKind kind :: ofSignificant (ahead.drop (n + 1)) := by
  rcases ofSignificant_drop he n with ⟨hend, -⟩ | ⟨t, ht, hkind, -, hsteps⟩
  · exact absurd (h.symm.trans hend) heof
  · rw [hsteps, ofToken_eq_ofKind (hmem t ht) (by rwa [hkind, h]), hkind, h]

/-- What comes first tells the first step. -/
theorem ofSignificant_of_head (he : c.Ended ahead) (hmem : ∀ t ∈ ahead, t ∈ tokenize d text)
    {kind : TokenKind} (h : c.kindAt ahead 0 = kind) (heof : kind ≠ .eof)
    (hidentifier : kind ≠ .identifier) :
    ofSignificant ahead = ofKind kind :: ofSignificant ahead.tail := by
  rw [← List.drop_one]
  exact ofSignificant_of_kindAt (n := 0) he hmem h heof hidentifier

/-- What every step of these kinds leads to, the step of a token among them leads to. -/
theorem apply_ofSignificant_of_mem {α : Type} (he : c.Ended ahead)
    (hmem : ∀ t ∈ ahead, t ∈ tokenize d text) {n : Nat} {kinds : List TokenKind}
    (h : c.kindAt ahead n ∈ kinds) (hkinds : ∀ kind ∈ kinds, kind ≠ .eof ∧ kind ≠ .identifier)
    {f : List Step → α} {a : α}
    (hf : ∀ rest, kinds.map (fun kind => f (ofKind kind :: rest)) = kinds.map fun _ => a) :
    f (ofSignificant (ahead.drop n)) = a := by
  obtain ⟨heof, hidentifier⟩ := hkinds _ h
  rw [ofSignificant_of_kindAt he hmem rfl heof hidentifier]
  exact List.map_inj_left.1 (hf _) _ h

end Step

end MySqlAnalysis
