import Mathlib.Logic.Basic
import Monorepo.Config.Basic

/-! What a configuration says once its gaps are filled. An empty text counts as left out wherever a
text is taken, so none comes through. -/
namespace Monorepo

theorem filled?_ne (s : Option String) : filled? s ≠ some "" := by
  intro h
  obtain ⟨-, h⟩ := Option.filter_eq_some_iff.mp h
  simp at h

theorem filled?_eq_some (s : Option String) (t : String) (h : filled? s = some t) : t ≠ "" := by
  rintro rfl
  exact filled?_ne s h

theorem orElse_ne (s t : Option String) (hs : s ≠ some "") (ht : t ≠ some "") :
    (s <|> t) ≠ some "" := by
  cases s with
  | none => exact ht
  | some s => exact hs

/-- The first text that is filled, if any. -/
theorem filled?_orElse_ne (s t : Option String) : (filled? s <|> filled? t) ≠ some "" :=
  orElse_ne _ _ (filled?_ne s) (filled?_ne t)

theorem getD_ne (s : Option String) (t : String) (hs : s ≠ some "") (ht : t ≠ "") :
    s.getD t ≠ "" := by
  cases s with
  | none => exact ht
  | some s => simpa using hs

theorem filled?_some {s : String} (h : s ≠ "") : filled? (some s) = some s :=
  Option.filter_eq_some_iff.mpr ⟨rfl, by simpa using h⟩

/-- A text that stands for a gap fills it. -/
theorem filled?_getD (t : Option String) {d : String} (hd : d ≠ "") :
    filled? (some ((filled? t).getD d)) = some ((filled? t).getD d) :=
  filled?_some (getD_ne _ _ (filled?_ne t) hd)

structure Settings.IsSound (s : Settings) : Prop where
  source : s.source ≠ ""
  output : ∃ o, s.output = some o ∧ o ≠ ""
  entry : s.entry ≠ some ""
  aliasToken : s.aliasToken ≠ ""

namespace Config

def settingsIn (c : Config) (mode : Mode) : Settings where
  mode
  aliasToken := (filled? c.aliasToken).getD Settings.standard.aliasToken
  source := (filled? c.source).getD Settings.standard.source
  entry := filled? c.entry
  output := filled? c.output
  resolveAliases := c.resolveAliases.getD Settings.standard.resolveAliases
  resolvePackages := c.resolvePackages.getD Settings.standard.resolvePackages
  resolveEntries := c.resolveEntries.getD Settings.standard.resolveEntries
  resolveLinks := c.resolveLinks.getD Settings.standard.resolveLinks
  resolveOwnName := c.resolveOwnName.getD Settings.standard.resolveOwnName

theorem settings_eq (c : Config) :
    c.settings = match filled? c.mode with
      | none => .ok (c.settingsIn Settings.standard.mode)
      | some mode => (Mode.parse mode).map c.settingsIn := by
  unfold settings
  cases filled? c.mode with
  | none => rfl
  | some mode => cases Mode.parse mode <;> rfl

theorem settings_eq_ok {c : Config} {s : Settings} (h : c.settings = .ok s) :
    s = c.settingsIn s.mode := by
  rw [settings_eq] at h
  cases hm : filled? c.mode with
  | none =>
    rw [hm] at h
    cases h
    rfl
  | some text =>
    rw [hm] at h
    dsimp only at h
    cases hp : Mode.parse text with
    | error e =>
      rw [hp] at h
      cases h
    | ok mode =>
      rw [hp] at h
      cases h
      rfl

theorem isSound_settings {c : Config} {s : Settings} (h : c.settings = .ok s)
    (ho : filled? c.output ≠ none) : s.IsSound := by
  rw [settings_eq_ok h]
  obtain ⟨o, ho⟩ := Option.ne_none_iff_exists'.mp ho
  exact {
    source := getD_ne _ _ (filled?_ne _) (by decide)
    output := ⟨o, ho, filled?_eq_some _ _ ho⟩
    entry := filled?_ne _
    aliasToken := getD_ne _ _ (filled?_ne _) (by decide) }

end Config
end Monorepo
