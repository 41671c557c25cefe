import Monorepo.Config.Decode
import Monorepo.Proofs.Json.Record
import Monorepo.Proofs.Outcome
import Monorepo.Proofs.Path.Lossy

/-! Objects read as configurations and as packages. Each field is found under its own key, whatever
the others are. -/
namespace Monorepo
open Json

namespace Spec

def texts (s : Spec) : List (Option String) :=
  [s.root, s.name, s.source, s.output, s.entry, s.aliasToken]

theorem ofJson?_object {members : List (String × Json)} {s : Spec}
    (h : List.Forall₂ (fun key t => textUnder? members key = some t) keys s.texts) :
    ofJson? (.object members) = some s := by
  obtain ⟨fields, hfields, htexts⟩ := (forall₂_bind_iff _ _ _ _).mp h
  rw [ofJson?, fields?, hfields]
  change (fields.mapM text? >>= _) = _
  rw [htexts]
  rfl

end Spec

namespace Config

def texts (c : Config) : List (Option String) :=
  [c.root.map Path.text, c.mode, c.aliasToken, c.source, c.output, c.entry]

def switches (c : Config) : List (Option Bool) :=
  [c.resolveAliases, c.resolvePackages, c.resolveEntries, c.resolveLinks, c.resolveOwnName]

def HasTextRoot (c : Config) : Prop := ∀ root ∈ c.root, root.IsText

structure Describes (members : List (String × Json)) (c : Config) : Prop where
  root : c.HasTextRoot
  texts : List.Forall₂ (fun key t => textUnder? members key = some t) textKeys c.texts
  switches : List.Forall₂ (fun key b => switchUnder? members key = some b) switchKeys c.switches
  packages : (single? members "packages").bind items? = some c.packages

variable {members : List (String × Json)} {c : Config}

theorem length_eq_of_mapM {keys : List String} {fields : List (Option Json)}
    (h : keys.mapM (single? members) = some fields) : fields.length = keys.length :=
  ((mapM_eq_some_iff _ _ _).mp h).length_eq.symm

theorem splitAt_fields {texts switches : List (Option Json)}
    (htexts : texts.length = 6) (hswitches : switches.length = 5) (packages : Option Json) :
    (texts ++ switches ++ [packages]).splitAt 11 = (texts ++ switches, [packages]) ∧
      (texts ++ switches).splitAt 6 = (texts, switches) := by
  rw [List.splitAt_eq, List.splitAt_eq, List.take_left' htexts, List.drop_left' htexts,
    List.take_left' (by simp [htexts, hswitches]), List.drop_left' (by simp [htexts, hswitches])]
  exact ⟨rfl, rfl⟩

/-- The fields of an object are those of its texts, its switches and its packages. -/
theorem fields?_keys_eq_some_iff {fields : List (Option Json)} :
    fields? keys (.object members) = some fields ↔ ∃ texts switches packages,
      fields = texts ++ switches ++ [packages] ∧ textKeys.mapM (single? members) = some texts ∧
      switchKeys.mapM (single? members) = some switches ∧
      single? members "packages" = some packages := by
  rw [Json.fields?, keys, List.mapM_append, List.mapM_append]
  simp only [Option.bind_eq_bind, Option.bind_eq_some_iff, List.mapM_cons, List.mapM_nil]
  constructor
  · rintro ⟨_, ⟨texts, htexts, switches, hswitches, ⟨⟩⟩, _, ⟨packages, hpackages, _, ⟨⟩, ⟨⟩⟩, ⟨⟩⟩
    exact ⟨texts, switches, packages, rfl, htexts, hswitches, hpackages⟩
  · rintro ⟨texts, switches, packages, rfl, htexts, hswitches, hpackages⟩
    exact ⟨_, ⟨texts, htexts, switches, hswitches, rfl⟩, _, ⟨packages, hpackages, _, rfl, rfl⟩, rfl⟩

theorem hasTextRoot_ofString (root : Option String) :
    HasTextRoot { root := root.map .ofString } := by
  intro p hp
  obtain ⟨t, -, rfl⟩ := Option.map_eq_some_iff.mp hp
  exact Path.isText_ofChars _

theorem map_ofString_map_text (h : c.HasTextRoot) :
    (c.root.map Path.text).map Path.ofString = c.root := by
  cases hr : c.root with
  | none => rfl
  | some root => exact congrArg some ((Path.ofString_text root).trans (h root hr))

theorem Describes.ofRecord? (h : Describes members c) : ofRecord? (.object members) = some c := by
  obtain ⟨texts, htexts, hreadTexts⟩ := (forall₂_bind_iff _ _ _ _).mp h.texts
  obtain ⟨switches, hswitches, hreadSwitches⟩ := (forall₂_bind_iff _ _ _ _).mp h.switches
  obtain ⟨packages, hpackages, hitems⟩ := Option.bind_eq_some_iff.mp h.packages
  obtain ⟨hsplit, hsettings⟩ := splitAt_fields
    (length_eq_of_mapM htexts) (length_eq_of_mapM hswitches) packages
  have hfields := fields?_keys_eq_some_iff.mpr
    ⟨texts, switches, packages, rfl, htexts, hswitches, hpackages⟩
  rw [Config.ofRecord?, hfields]
  simp only [Option.bind_eq_bind, Option.bind_some, hsplit, hsettings, hreadTexts, hreadSwitches,
    Config.texts, Config.switches, hitems, map_ofString_map_text h.root]
  rfl

theorem describes_of_ofRecord? (h : ofRecord? (.object members) = some c) :
    Describes members c := by
  obtain ⟨fields, hfields, hread⟩ := Option.bind_eq_some_iff.mp h
  obtain ⟨texts, switches, packages, rfl, htexts, hswitches, hpackages⟩ :=
    fields?_keys_eq_some_iff.mp hfields
  obtain ⟨hsplit, hsettings⟩ := splitAt_fields
    (length_eq_of_mapM htexts) (length_eq_of_mapM hswitches) packages
  simp only [hsplit, hsettings] at hread
  obtain ⟨ts, hts, hrest⟩ := Option.bind_eq_some_iff.mp hread
  obtain ⟨bs, hbs, hfill⟩ := Option.bind_eq_some_iff.mp hrest
  clear h hread hrest hfields hsplit hsettings
  split at hfill
  next root _ _ _ _ _ _ _ _ _ _ _ heq =>
    cases heq
    obtain ⟨items, hitems, hc⟩ := Option.bind_eq_some_iff.mp hfill
    cases hc
    have htext : (root.map Path.ofString).map Path.text = root := by cases root <;> simp
    refine ⟨hasTextRoot_ofString root, (forall₂_bind_iff _ _ _ _).mpr ⟨texts, htexts, ?_⟩,
      (forall₂_bind_iff _ _ _ _).mpr ⟨switches, hswitches, hbs⟩,
      Option.bind_eq_some_iff.mpr ⟨packages, hpackages, hitems⟩⟩
    rw [Config.texts, htext]
    exact hts
  next => contradiction

/-- An object is read as a configuration just if its members describe it. -/
theorem ofRecord?_object_eq_some_iff : ofRecord? (.object members) = some c ↔ Describes members c :=
  ⟨describes_of_ofRecord?, Describes.ofRecord?⟩

end Config
end Monorepo
