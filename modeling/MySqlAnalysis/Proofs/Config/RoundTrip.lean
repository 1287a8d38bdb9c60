import MySqlAnalysis.Proofs.Config.ModeText
import MySqlAnalysis.Proofs.Json.Reading

/-!
# Configurations survive their documents

Whatever writes and reads configurations as documented, a configuration is loaded from
the document that was written for it (`Config.fromJson_write`), whatever its version, its
mode bits and the names of its character sets are: its written form is an object with the
settings, and the text of its modes stands for them.

What is documented is not too much: the serialization that runs is as documented
(`Config.strict_documented`).
-/

set_option autoImplicit false

namespace MySqlAnalysis.Config

open Json

/-! ### The serialization that runs -/

/-- A member whose name was decoded stands for the member that was given. -/
structure MemberDecoded (member : String × Value) (given : String × Datum) : Prop where
  key : member.1 = given.1
  value : member.2.Stands given.2

theorem decodeKeys_of_stands {members : List (List Element × Value)}
    {given : List (String × Datum)} (h : List.Forall₂ MemberStands members given) :
    ∃ decoded, decodeKeys members = some decoded ∧ List.Forall₂ MemberDecoded decoded given := by
  induction h with
  | nil => exact ⟨[], rfl, .nil⟩
  | @cons member given members rest hmember _ ih =>
      obtain ⟨decoded, hdecoded, hrest⟩ := ih
      obtain ⟨key, hkey, hname⟩ := Option.map_eq_some_iff.1 hmember.key
      refine ⟨(given.1, member.2) :: decoded, ?_, .cons ⟨rfl, hmember.value⟩ hrest⟩
      rw [decodeKeys] at hdecoded ⊢
      rw [List.mapM_cons, hdecoded, hkey]
      simp [hname]

/-- Where no name is repeated there is at most one value with a name. -/
theorem valuesOf_of_decoded {members : List (String × Value)} {given : List (String × Datum)}
    (h : List.Forall₂ MemberDecoded members given) (hnodup : (given.map Prod.fst).Nodup)
    (key : String) :
    List.Forall₂ Value.Stands (valuesOf key members) (given.lookup key).toList := by
  induction h with
  | nil => exact .nil
  | @cons member given members rest hmember _ ih =>
      obtain ⟨hnew, hnodup⟩ := List.nodup_cons.1 hnodup
      have hrest := ih hnodup
      obtain ⟨name, value⟩ := member
      obtain ⟨name', d⟩ := given
      obtain rfl : name = name' := hmember.key
      by_cases hkey : name = key
      · -- no other member has this name, so its value is the only one
        subst hkey
        have hnone : rest.lookup name = none := by
          rw [List.lookup_eq_none_iff]
          intro p hp
          have hne : p.1 ≠ name := fun heq => hnew (List.mem_map.2 ⟨p, hp, heq⟩)
          simpa using hne.symm
        rw [hnone, Option.toList_none, List.forall₂_nil_right_iff] at hrest
        simp only [valuesOf, List.filter_cons, beq_self_eq_true, if_true, List.map_cons,
          List.lookup_cons_self, Option.toList_some] at hrest ⊢
        rw [hrest]
        exact .cons hmember.value .nil
      · have hne : (key == name) = false := by simpa using Ne.symm hkey
        simpa [valuesOf, hkey, List.lookup_cons, hne] using hrest

/-- A setting is read from the value that was given for it, or is the standard one. -/
theorem setting_eq {α : Type} {read : Value → Option α} {fallback x : α} {values : List Value}
    {d : Option Datum} {IsGiven : Datum → Prop} (h : List.Forall₂ Value.Stands values d.toList)
    (hfilled : d.elim (x = fallback) IsGiven)
    (hread : ∀ {d value}, IsGiven d → value.Stands d → read value = some x) :
    setting read fallback values = some x := by
  cases d with
  | none =>
      have hx : x = fallback := hfilled
      rw [Option.toList_none, List.forall₂_nil_right_iff] at h
      rw [h, setting, hx]
  | some d =>
      obtain ⟨value, rest, hvalue, hrest, rfl⟩ := List.forall₂_cons_right_iff.1 h
      rw [List.forall₂_nil_right_iff] at hrest
      rw [hrest]
      exact hread hfilled hvalue

theorem text?_of_stands {value : Value} {text : String} (h : value.Stands (.text text)) :
    value.text? = some text := by
  cases h with
  | text h => exact h

theorem texts?_of_stands {value : Value} {texts : List String} (h : value.Stands (.texts texts)) :
    value.texts? = some texts := by
  cases h with
  | texts h => exact h

/-- Members that stand for those that fill a configuration are read as that configuration. -/
theorem ofSettings_of_filledFrom {c : Config} {members : List (String × Value)}
    {given : List (String × Datum)} (h : List.Forall₂ MemberDecoded members given)
    (hnodup : (given.map Prod.fst).Nodup) (hfilled : c.FilledFrom SqlMode.read? given) :
    ofSettings (valuesOf "version" members) (valuesOf "mode" members)
      (valuesOf "charsets" members) = some c := by
  have hvalues := valuesOf_of_decoded h hnodup
  have hversion := setting_eq (hvalues "version") hfilled.version
    fun hd hstands => text?_of_stands (hd ▸ hstands)
  have hmode : setting mode? standard.mode (valuesOf "mode" members) = some c.mode := by
    refine setting_eq (hvalues "mode") hfilled.mode ?_
    rintro d value ⟨text, rfl, hread⟩ hstands
    rw [mode?, text?_of_stands hstands]
    exact hread
  have hcharsets := setting_eq (hvalues "charsets") hfilled.charsets
    fun hd hstands => texts?_of_stands (hd ▸ hstands)
  rw [ofSettings, hversion, hmode, hcharsets]

/-- The serialization that runs is as documented. -/
theorem strict_documented : strict.Documented where
  modeText_eq _ := rfl
  mode?_of_isBarForm := SqlMode.read?_of_isBarForm
  write_eq _ := rfl
  read_of_isDocument := by
    intro document given c h hnodup hfilled
    obtain ⟨members, hread, hstands⟩ := read?_of_isDocument h
    obtain ⟨decoded, hdecoded, hstands⟩ := decodeKeys_of_stands hstands
    have hvalue : ofValue? (.object members) = some c := by
      rw [ofValue?, hdecoded, Option.bind_some]
      exact ofSettings_of_filledFrom hstands hnodup hfilled
    show ((Json.read? document.toList).bind ofValue?).elim _ _ = _
    rw [hread, Option.bind_some, hvalue]
    rfl

/-! ### The round trip -/

/-- A configuration is loaded from the document that was written for it. -/
theorem fromJson_write {S : Serialization} (h : S.Documented) (c : Config) :
    ∃ document, S.write c = .ok document ∧ fromJson S document = .ok c := by
  have hmode : S.mode? (S.modeText c.mode) = some c.mode := by
    rw [h.modeText_eq]
    exact h.mode?_of_isBarForm c.mode.isBarForm_parts
  have hdocument := c.isDocument_written (S.modeText c.mode)
  rw [← String.toList_ofList (l := c.written _)] at hdocument
  have hread := h.read_of_isDocument hdocument (by simp) ⟨rfl, ⟨_, rfl, hmode⟩, rfl⟩
  refine ⟨_, h.write_eq c, ?_⟩
  rw [fromJson, hread]
  rfl

/-- A configuration with a quote, a control character, a character outside ASCII and a mode
bit that has no name. -/
theorem fromJson_write_escaped :
    strict.Documented ∧
      ∃ c : Config, c = ⟨"8\x22\x01é", ⟨0x80000011⟩, ["utf8", "a\\b"]⟩ ∧
        ∃ document, strict.write c = .ok document ∧ fromJson strict document = .ok c ∧
          document = "\x7b\x22version\x22:\x228\\\x22\\u0001é\x22," ++
            "\x22mode\x22:\x22ANSI_QUOTES | NO_BACKSLASH_ESCAPES | 0x80000000\x22," ++
            "\x22charsets\x22:[\x22utf8\x22,\x22a\\\\b\x22]\x7d" := by
  obtain ⟨document, hwrite, hread⟩ :=
    fromJson_write strict_documented ⟨"8\x22\x01é", ⟨0x80000011⟩, ["utf8", "a\\b"]⟩
  refine ⟨strict_documented, _, rfl, document, hwrite, hread, ?_⟩
  have hdocument := Except.ok.inj hwrite
  rw [← hdocument]
  decide +kernel

end MySqlAnalysis.Config
