import Mathlib
import Monorepo.Proofs.Config.Decode
import Monorepo.Proofs.Json.Reader

/-! A bare list of packages. It stands for an object with nothing but that list, unless one of its
items is no package and the items can be taken for the fields of a configuration in their order. -/
namespace Monorepo
open Json

namespace Config

def listed (items : List Json) : Json := .object [("packages", .array items)]

def ofItems (packages : List Item) : Config := { packages }

/-- The fields of a configuration in their order: six texts, five switches and the packages. They
may end early, and all but the packages may be null. -/
structure IsByPosition (items : List Json) : Prop where
  length : items.length ≤ 12
  texts : ∀ n < 6, ∀ v, items[n]? = some v → v = .null ∨ ∃ s, v = .string s
  switches : ∀ n, 6 ≤ n → n < 11 → ∀ v, items[n]? = some v → v = .null ∨ ∃ b, v = .bool b
  packages : ∀ v, items[11]? = some v → ∃ packages, v = .array packages ∧
    ∀ p ∈ packages, (item? p).isSome = true

def IsMisread (items : List Json) : Prop :=
  IsByPosition items ∧ ∃ v ∈ items, v = .null ∨ ∃ b, v = .bool b

theorem fields?_array (keys : List String) (items : List Json)
    (h : items.length ≤ keys.length) :
    Json.fields? keys (.array items) = some ((List.range keys.length).map (items[·]?)) := by
  rw [Json.fields?, if_pos h]
  congr 1
  apply List.ext_getElem?
  intro n
  rw [List.getElem?_map, List.getElem?_append, List.getElem?_map, List.getElem?_replicate,
    List.length_map]
  by_cases hn : n < items.length
  · rw [if_pos hn, List.getElem?_range (Nat.lt_of_lt_of_le hn h), Option.map_some,
      List.getElem?_eq_getElem hn]
    rfl
  · have hnone : items[n]? = none := List.getElem?_eq_none (Nat.not_lt.mp hn)
    rw [if_neg hn]
    by_cases hk : n < keys.length
    · rw [if_pos (by omega), List.getElem?_range hk, Option.map_some, hnone]
    · rw [if_neg (by omega), List.getElem?_eq_none (by simpa using hk)]
      rfl

theorem isSome_text?_iff (v? : Option Json) :
    (text? v?).isSome = true ↔ ∀ v, v? = some v → v = .null ∨ ∃ s, v = .string s := by
  cases v? with
  | none => simp [text?]
  | some v => cases v <;> simp [text?]

theorem isSome_switch?_iff (v? : Option Json) :
    (switch? v?).isSome = true ↔ ∀ v, v? = some v → v = .null ∨ ∃ b, v = .bool b := by
  cases v? with
  | none => simp [switch?]
  | some v => cases v <;> simp [switch?]

theorem isSome_items?_iff (v? : Option Json) :
    (items? v?).isSome = true ↔ ∀ v, v? = some v → ∃ packages, v = .array packages ∧
      ∀ p ∈ packages, (item? p).isSome = true := by
  cases v? with
  | none => simp [items?]
  | some v => cases v <;> simp [items?, isSome_mapM_iff]

theorem isSome_ofRecord?_iff {v : Json} {texts switches : List (Option Json)}
    {packages : Option Json} (hfields : v.fields? keys = some (texts ++ switches ++ [packages]))
    (htexts : texts.length = 6) (hswitches : switches.length = 5) :
    (ofRecord? v).isSome = true ↔ (∀ t ∈ texts, (text? t).isSome = true) ∧
      (∀ b ∈ switches, (switch? b).isSome = true) ∧ (items? packages).isSome = true := by
  obtain ⟨hsplit, hsettings⟩ := splitAt_fields htexts hswitches packages
  rw [← isSome_mapM_iff, ← isSome_mapM_iff, ofRecord?, hfields]
  simp only [Option.bind_eq_bind, Option.bind_some, hsplit, hsettings]
  cases hts : texts.mapM text? with
  | none => simp
  | some ts =>
    cases hbs : switches.mapM switch? with
    | none => simp
    | some bs =>
      have hts' : ts.length = 6 := ((mapM_eq_some_iff _ _ _).mp hts).length_eq.symm.trans htexts
      have hbs' : bs.length = 5 := ((mapM_eq_some_iff _ _ _).mp hbs).length_eq.symm.trans hswitches
      -- there are six texts and five switches, whatever they are
      rcases ts with _ | ⟨_, _ | ⟨_, _ | ⟨_, _ | ⟨_, _ | ⟨_, _ | ⟨_, _ | _⟩⟩⟩⟩⟩⟩ <;> cases hts'
      rcases bs with _ | ⟨_, _ | ⟨_, _ | ⟨_, _ | ⟨_, _ | ⟨_, _ | _⟩⟩⟩⟩⟩ <;> cases hbs'
      cases h : items? packages <;> simp [h]

theorem isSome_ofRecord?_array_iff (items : List Json) :
    (ofRecord? (.array items)).isSome = true ↔ IsByPosition items := by
  by_cases hl : items.length ≤ keys.length
  · have hrange : (List.range keys.length).map (items[·]?) = (List.range' 0 6).map (items[·]?) ++
        (List.range' 6 5).map (items[·]?) ++ [items[11]?] := rfl
    have hfields := (fields?_array keys items hl).trans (congrArg some hrange)
    rw [isSome_ofRecord?_iff hfields rfl rfl, isSome_items?_iff]
    simp only [List.forall_mem_map, List.mem_range'_1, isSome_text?_iff, isSome_switch?_iff]
    constructor
    · rintro ⟨htexts, hswitches, hpackages⟩
      exact ⟨hl, fun n hn => htexts n ⟨n.zero_le, hn⟩, fun n hn hn' => hswitches n ⟨hn, hn'⟩,
        hpackages⟩
    · intro h
      exact ⟨fun n hn => h.texts n hn.2, fun n hn => h.switches n hn.1 hn.2, h.packages⟩
  · have hnone : Json.fields? keys (.array items) = none := by rw [Json.fields?, if_neg hl]
    rw [ofRecord?, hnone]
    exact iff_of_false Bool.false_ne_true fun h => hl h.length

theorem item?_eq_none_of_setting {v : Json} (h : v = .null ∨ ∃ b, v = .bool b) :
    item? v = none := by
  obtain rfl | ⟨b, rfl⟩ := h <;> rfl

/-- A list that can be taken for fields is no list of packages just if it has a null or a switch. -/
theorem IsByPosition.isMisread_iff {items : List Json} (h : IsByPosition items) :
    (∃ v ∈ items, v = .null ∨ ∃ b, v = .bool b) ↔ (items.mapM item?).isSome = false := by
  rw [← Bool.not_eq_true, isSome_mapM_iff]
  constructor
  · rintro ⟨v, hv, hs⟩ hall
    have hsome := hall v hv
    rw [item?_eq_none_of_setting hs] at hsome
    cases hsome
  · intro hall
    by_contra hno
    push Not at hno
    apply hall
    -- without a null or a switch there are texts only, and not more than six
    have hshort : items.length ≤ 6 := by
      by_contra hlong
      obtain hs := h.switches 6 le_rfl (by decide) items[6] (List.getElem?_eq_getElem (by omega))
      obtain hn | ⟨b, hb⟩ := hs
      · exact (hno _ (List.getElem_mem _)).1 hn
      · exact (hno _ (List.getElem_mem _)).2 b hb
    intro v hv
    obtain ⟨n, hn⟩ := List.getElem?_of_mem hv
    obtain ⟨hlt, -⟩ := List.getElem?_eq_some_iff.mp hn
    obtain rfl | ⟨s, rfl⟩ := h.texts n (by omega) v hn
    · exact absurd rfl (hno _ hv).1
    · rfl

theorem ofJson?_listed (items : List Json) :
    ofJson? (listed items) = (items.mapM item?).map ofItems := by
  have hfields : (listed items).fields? keys =
      some (List.replicate 11 none ++ [some (.array items)]) := rfl
  change ofRecord? (listed items) = _
  rw [ofRecord?, hfields]
  change (items.mapM item? >>= fun packages => some (ofItems packages)) = _
  cases items.mapM item? <;> rfl

theorem ofJson?_array (items : List Json) :
    ofJson? (.array items) = ((items.mapM item?).map ofItems <|> ofRecord? (.array items)) := by
  unfold ofJson?
  dsimp only
  cases items.mapM item? <;> rfl

theorem ofJson?_array_eq_listed {items : List Json} (h : ¬ IsMisread items) :
    ofJson? (.array items) = ofJson? (listed items) := by
  rw [ofJson?_listed, ofJson?_array]
  cases hm : items.mapM item? with
  | some packages => rfl
  | none =>
    cases hr : ofRecord? (.array items) with
    | none => rfl
    | some c =>
      have hp : IsByPosition items := (isSome_ofRecord?_array_iff items).mp (by rw [hr]; rfl)
      exact absurd ⟨hp, hp.isMisread_iff.mpr (by rw [hm]; rfl)⟩ h

theorem IsMisread.ofJson? {items : List Json} (h : IsMisread items) :
    (ofJson? (.array items)).isSome = true ∧ ofJson? (listed items) = none := by
  have hm : items.mapM item? = none := by
    rw [← Option.not_isSome_iff_eq_none, h.1.isMisread_iff.mp h.2]
    decide
  rw [ofJson?_listed, ofJson?_array, hm]
  exact ⟨(isSome_ofRecord?_array_iff items).mpr h.1, rfl⟩

variable {path : Path} {c : Config}

theorem ofValue_eq_ok_iff (v : Json) : ofValue path v = .ok c ↔ ofJson? v = some c := by
  rw [ofValue]
  cases ofJson? v <;> simp

theorem ofText_eq_ok_iff (text : String) :
    ofText path text = .ok c ↔ ∃ v, Holds text v ∧ ofValue path v = .ok c := by
  rw [ofText]
  constructor
  · intro h
    obtain ⟨⟨v, rest⟩, hv, h⟩ := (bind_eq_ok_iff _ _ _).mp h
    obtain ⟨c', hc, h⟩ := (bind_eq_ok_iff _ _ _).mp h
    obtain ⟨⟨⟩, he, h⟩ := (bind_eq_ok_iff _ _ _).mp h
    cases h
    exact ⟨v, ⟨rest, (mapError_eq_ok_iff _ _ _).mp ((mapError_eq_ok_iff _ _ _).mp hv),
      (mapError_eq_ok_iff _ _ _).mp ((mapError_eq_ok_iff _ _ _).mp he)⟩, hc⟩
  · rintro ⟨v, ⟨rest, hv, he⟩, hc⟩
    refine (bind_eq_ok_iff _ _ _).mpr ⟨(v, rest), ?_, ?_⟩
    · exact (mapError_eq_ok_iff _ _ _).mpr ((mapError_eq_ok_iff _ _ _).mpr hv)
    · refine (bind_eq_ok_iff _ _ _).mpr ⟨c, hc, ?_⟩
      exact (bind_eq_ok_iff _ _ _).mpr
        ⟨(), (mapError_eq_ok_iff _ _ _).mpr ((mapError_eq_ok_iff _ _ _).mpr he), rfl⟩

theorem ofText_of_holds {text : String} {v : Json} (h : Holds text v) :
    ofText path text = .ok c ↔ ofValue path v = .ok c := by
  rw [ofText_eq_ok_iff]
  constructor
  · rintro ⟨w, hw, hc⟩
    rwa [h.unique hw]
  · intro hc
    exact ⟨v, h, hc⟩

def asListed (text : String) : String := "\x7b\"packages\":" ++ text ++ "\x7d"

theorem toList_asListed (text : String) :
    (asListed text).toList = memberText "packages".toList text.toList := by
  simp [asListed, memberText]

theorem holds_asListed_iff {text : String} {items : List Json} (h : Holds text (.array items))
    (v : Json) :
    Holds (asListed text) v ↔ nesting (.array items) < depthLimit ∧ v = listed items := by
  have hkey : readString .full ("packages".toList ++ ['"']) = .ok ("packages".toList, []) := by cbv
  obtain ⟨rest, hv, he⟩ := h
  rw [Holds, toList_asListed]
  constructor
  · rintro ⟨rest', hw, -⟩
    have hn := nesting_lt_of_readFirst_memberText hkey hv hw
    rw [readFirst_memberText hkey hv he hn] at hw
    cases hw
    exact ⟨hn, rfl⟩
  · rintro ⟨hn, rfl⟩
    exact ⟨[], readFirst_memberText hkey hv he hn, rfl⟩

/-- Unless it is misread, a bare list stands for the object with that list, and its items for
packages. A list that is misread is accepted though the object is not. In a text the object needs
one more bracket than the list. -/
theorem list_stands_for_object (path : Path) (items : List Json) :
    (¬ IsMisread items → ∀ c,
      (ofValue path (.array items) = .ok c ↔ ofValue path (listed items) = .ok c) ∧
      (ofValue path (.array items) = .ok c →
        items.mapM item? = some c.packages ∧ c = ofItems c.packages)) ∧
    (IsMisread items →
      (∃ c, ofValue path (.array items) = .ok c) ∧ ∀ c, ofValue path (listed items) ≠ .ok c) ∧
    ∀ text, Holds text (.array items) → ∀ c,
      (ofText path text = .ok c ↔ ofValue path (.array items) = .ok c) ∧
      (ofText path (asListed text) = .ok c ↔
        nesting (.array items) < depthLimit ∧ ofValue path (listed items) = .ok c) := by
  refine ⟨?_, ?_, ?_⟩
  · intro h c
    simp only [ofValue_eq_ok_iff, ofJson?_array_eq_listed h, true_and]
    rw [ofJson?_listed]
    intro hc
    obtain ⟨packages, hp, rfl⟩ := Option.map_eq_some_iff.mp hc
    exact ⟨hp, rfl⟩
  · intro h
    obtain ⟨c, hc⟩ := Option.isSome_iff_exists.mp h.ofJson?.1
    refine ⟨⟨c, (ofValue_eq_ok_iff _).mpr hc⟩, ?_⟩
    intro c' hc'
    rw [ofValue_eq_ok_iff, h.ofJson?.2] at hc'
    cases hc'
  · intro text h c
    refine ⟨ofText_of_holds h, ?_⟩
    rw [ofText_eq_ok_iff]
    simp only [holds_asListed_iff h, and_assoc, exists_eq_left, exists_and_left]

def threeItems : List Json :=
  [.string "p/*", .object [("name", .string "n")], .array [.string "q", .string "m"]]

def threeItemsText : String := "[\"p/*\", \x7b\"name\": \"n\"\x7d, [\"q\", \"m\"]]"

def threePackages : List Item :=
  [.root "p/*", .spec { name := some "n" }, .spec { root := some "q", name := some "m" }]

theorem list_stands_for_object_mixed :
    ¬ IsMisread threeItems ∧ IsMisread [.string "a", .null] ∧
    Holds threeItemsText (.array threeItems) ∧
    ofText (.ofString "/c.json") threeItemsText = .ok (ofItems threePackages) ∧
    ofText (.ofString "/c.json") (asListed threeItemsText) = .ok (ofItems threePackages) ∧
    ∀ c, ofValue (.ofString "/c.json") (listed [.string "a", .null]) ≠ .ok c := by
  have hread : ¬ IsMisread threeItems := by
    rintro ⟨h, -⟩
    obtain h | ⟨s, h⟩ := h.texts 1 (by decide) _ rfl <;> cases h
  have hmisread : IsMisread [.string "a", .null] :=
    ⟨(isSome_ofRecord?_array_iff _).mp rfl, .null, by simp, Or.inl rfl⟩
  have hholds : Holds threeItemsText (.array threeItems) := ⟨[], by cbv, by cbv⟩
  have hvalue :
      ofValue (.ofString "/c.json") (.array threeItems) = .ok (ofItems threePackages) := by
    cbv
  have hobject := ((list_stands_for_object _ _).1 hread _).1.mp hvalue
  obtain ⟨htext, hlisted⟩ := (list_stands_for_object (.ofString "/c.json") _).2.2 _ hholds
    (ofItems threePackages)
  exact ⟨hread, hmisread, hholds, htext.mpr hvalue, hlisted.mpr ⟨by decide, hobject⟩,
    ((list_stands_for_object _ _).2.1 hmisread).2⟩

/-- With a null, the first item becomes the root of a configuration without packages, and the object
is refused. -/
theorem null_makes_settings :
    ofValue (.ofString "/c.json") (.array [.string "a", .null]) =
      .ok { root := some (.ofString "a") } ∧
    ofValue (.ofString "/c.json") (listed [.string "a", .null]) =
      .error (.parse (.ofString "/c.json") ⟨.wrongShape, none⟩) :=
  ⟨rfl, rfl⟩

end Config
end Monorepo
