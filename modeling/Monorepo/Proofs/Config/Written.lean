import Monorepo.Proofs.Config.BareList
import Monorepo.Proofs.Config.Decode
import Monorepo.Proofs.Json.Printer

/-! Configurations written and read back. What is written is an object, so it is never taken for a
bare list of packages, and of its packages no text is taken for a description nor the other way
round. -/
namespace Monorepo
open Json

theorem Json.fits_given {options : List (String × Option Json)} {depth : Nat}
    (h : ∀ o ∈ options, ∀ v ∈ o.2, Fits depth v) : Fits (depth + 1) (.object (given options)) :=
  fits_object fun m hm => h _ (mem_given.mp hm) m.2 rfl

theorem Json.fits_text (depth : Nat) (t : Option String) : ∀ v ∈ t.map .string, Fits depth v := by
  intro v hv
  obtain ⟨s, -, rfl⟩ := Option.mem_map.mp hv
  exact fits_string depth s

theorem Json.fits_switch (depth : Nat) (b : Option Bool) : ∀ v ∈ b.map .bool, Fits depth v := by
  intro v hv
  obtain ⟨b, -, rfl⟩ := Option.mem_map.mp hv
  exact fits_bool depth b

theorem Path.toJson?_eq_some_iff {p : Path} {v : Json} :
    p.toJson? = some v ↔ p.IsText ∧ v = .string p.text := by
  rw [Path.toJson?, Option.map_eq_some_iff, Path.isText_iff]
  constructor
  · rintro ⟨t, ht, rfl⟩
    obtain rfl := Path.text?_eq_some_iff.mp ht
    rw [Path.text_ofString]
    exact ⟨ht, rfl⟩
  · rintro ⟨ht, rfl⟩
    exact ⟨_, ht, rfl⟩

namespace Spec

def options (s : Spec) : List (String × Option Json) :=
  [("root", s.root.map .string), ("name", s.name.map .string), ("source", s.source.map .string),
    ("dest", s.output.map .string), ("main", s.entry.map .string),
    ("prefix", s.aliasToken.map .string)]

theorem toJson_eq (s : Spec) : s.toJson = .object (given s.options) := rfl

theorem ofJson?_of_reorders {s : Spec} {v : Json} (h : Reorders s.toJson v) :
    ofJson? v = some s := by
  obtain ⟨members, rfl⟩ := h.exists_object
  have hn : (s.options.map (·.1)).Nodup := (by decide : keys.Nodup)
  have hread {key : String} {t : Option String} (ht : (key, t.map .string) ∈ s.options) :
      textUnder? members key = some t := textUnder?_of_reorders hn h ht
  refine ofJson?_object (.cons (hread ?_) (.cons (hread ?_) (.cons (hread ?_) (.cons (hread ?_)
    (.cons (hread ?_) (.cons (hread ?_) .nil)))))) <;> simp [options]

theorem fits_toJson (s : Spec) (depth : Nat) : Fits (depth + 1) s.toJson := by
  rw [toJson_eq]
  refine fits_given ?_
  simp only [options, List.forall_mem_cons, List.not_mem_nil, false_imp_iff, implies_true, and_true]
  exact ⟨fits_text _ _, fits_text _ _, fits_text _ _, fits_text _ _, fits_text _ _, fits_text _ _⟩

end Spec

namespace Config

theorem item?_of_reorders {i : Item} {v : Json} (h : Reorders (itemToJson i) v) :
    item? v = some i := by
  cases i with
  | root r =>
    cases h
    rfl
  | spec s =>
    have hs := Spec.ofJson?_of_reorders h
    obtain ⟨members, rfl⟩ := h.exists_object
    exact Option.map_eq_some_iff.mpr ⟨s, hs, rfl⟩

theorem fits_itemToJson (i : Item) (depth : Nat) : Fits (depth + 1) (itemToJson i) := by
  cases i with
  | root r => exact fits_string _ r
  | spec s => exact s.fits_toJson depth

def options (c : Config) : List (String × Option Json) :=
  [("root", (c.root.map Path.text).map .string), ("mode", c.mode.map .string),
    ("prefix", c.aliasToken.map .string), ("source", c.source.map .string),
    ("dest", c.output.map .string), ("main", c.entry.map .string),
    ("resolvePrefixes", c.resolveAliases.map .bool),
    ("resolvePackages", c.resolvePackages.map .bool),
    ("resolveMain", c.resolveEntries.map .bool), ("resolveSymlinks", c.resolveLinks.map .bool),
    ("resolveSelf", c.resolveOwnName.map .bool),
    ("packages", some (.array (c.packages.map itemToJson)))]

/-- A configuration can be written just if its root is a text. -/
theorem toJson?_eq_some_iff {c : Config} {v : Json} :
    c.toJson? = some v ↔ c.HasTextRoot ∧ v = .object (given c.options) := by
  have hroot (r : Option Json) : c.root.mapM Path.toJson? = some r ↔
      c.HasTextRoot ∧ r = (c.root.map Path.text).map .string := by
    unfold HasTextRoot
    cases c.root with
    | none => simp [eq_comm]
    | some root =>
      simp only [Option.mapM_some, Option.map_eq_map, Option.map_eq_some_iff,
        Path.toJson?_eq_some_iff, Option.mem_some_iff, forall_eq', Option.map_some]
      exact ⟨fun ⟨w, ⟨h, hw⟩, hr⟩ => ⟨h, by rw [← hr, hw]⟩,
        fun ⟨h, hr⟩ => ⟨_, ⟨h, rfl⟩, hr.symm⟩⟩
  rw [toJson?]
  simp only [Option.bind_eq_bind, Option.bind_eq_some_iff, hroot, and_assoc, exists_and_left,
    exists_eq_left, Option.pure_def, Option.some_inj]
  exact and_congr_right fun _ => eq_comm

theorem items?_of_reorders {packages : List Item} {v : Json}
    (h : Reorders (.array (packages.map itemToJson)) v) : items? (some v) = some packages := by
  obtain ⟨items, rfl, hitems⟩ := h.exists_array
  rw [List.forall₂_map_left_iff] at hitems
  exact (mapM_eq_some_iff _ _ _).mpr (hitems.flip.imp fun v i hi => item?_of_reorders hi)

theorem describes_of_reorders {c : Config} {members : List (String × Json)} (hroot : c.HasTextRoot)
    (h : Reorders (.object (given c.options)) (.object members)) : Describes members c := by
  -- the keys that are written are those that are read
  have hn : (c.options.map (·.1)).Nodup := (by decide : keys.Nodup)
  have htext {key : String} {t : Option String} (ht : (key, t.map .string) ∈ c.options) :
      textUnder? members key = some t := textUnder?_of_reorders hn h ht
  have hswitch {key : String} {b : Option Bool} (hb : (key, b.map .bool) ∈ c.options) :
      switchUnder? members key = some b := switchUnder?_of_reorders hn h hb
  have hpackages : (single? members "packages").bind items? = some c.packages := by
    have hmem : ("packages", some (Json.array (c.packages.map itemToJson))) ∈ c.options := by
      simp [options]
    obtain ⟨f, hf, hrel⟩ := h.exists_single? (single?_given hn hmem)
    rw [hf]
    cases hrel with
    | some hitems => exact items?_of_reorders hitems
  refine ⟨hroot, ?_, ?_, hpackages⟩
  · refine .cons (htext ?_) (.cons (htext ?_) (.cons (htext ?_) (.cons (htext ?_)
      (.cons (htext ?_) (.cons (htext ?_) .nil))))) <;> simp [options]
  · refine .cons (hswitch ?_) (.cons (hswitch ?_) (.cons (hswitch ?_) (.cons (hswitch ?_)
      (.cons (hswitch ?_) .nil)))) <;> simp [options]

theorem fits_options (c : Config) (depth : Nat) :
    Fits (depth + 3) (.object (given c.options)) := by
  have hitems : ∀ v ∈ some (Json.array (c.packages.map itemToJson)), Fits (depth + 2) v := by
    intro v hv
    obtain rfl := Option.some.inj hv
    refine fits_array fun v hv => ?_
    obtain ⟨i, -, rfl⟩ := List.mem_map.mp hv
    exact fits_itemToJson i depth
  refine fits_given ?_
  simp only [options, List.forall_mem_cons, List.not_mem_nil, false_imp_iff, implies_true, and_true]
  exact ⟨fits_text _ _, fits_text _ _, fits_text _ _, fits_text _ _, fits_text _ _, fits_text _ _,
    fits_switch _ _, fits_switch _ _, fits_switch _ _, fits_switch _ _, fits_switch _ _, hitems⟩

theorem ofValue_of_reorders (path : Path) {c : Config} {v v' : Json} (hv : c.toJson? = some v)
    (h : Reorders v v') : ofValue path v' = .ok c := by
  obtain ⟨hroot, rfl⟩ := toJson?_eq_some_iff.mp hv
  obtain ⟨members, rfl⟩ := h.exists_object
  exact (ofValue_eq_ok_iff _).mpr (ofRecord?_object_eq_some_iff.mpr (describes_of_reorders hroot h))

theorem ofText_compact (path : Path) {c : Config} {v : Json} (hv : c.toJson? = some v) :
    ofText path v.compact = .ok c := by
  have hholds : Holds v.compact v := by
    obtain ⟨-, rfl⟩ := toJson?_eq_some_iff.mp hv
    exact holds_compact (c.fits_options 124)
  exact (ofText_of_holds hholds).mpr (ofValue_of_reorders path hv (.same v))

/-- A configuration whose root is a text can be written, and is read back as it was written: from
its value, in whatever order the members of the objects in it have come to stand, from each text
that holds such a value, and from its own text. -/
theorem read_written (path : Path) {c : Config} (hroot : c.HasTextRoot) :
    ∃ v, c.toJson? = some v ∧
      (∀ v', Reorders v v' → ofValue path v' = .ok c ∧
        ∀ text, Holds text v' → ofText path text = .ok c) ∧
      ofText path v.compact = .ok c := by
  have hv : c.toJson? = some (.object (given c.options)) := toJson?_eq_some_iff.mpr ⟨hroot, rfl⟩
  refine ⟨_, hv, fun v' h => ?_, ofText_compact path hv⟩
  have hvalue := ofValue_of_reorders path hv h
  exact ⟨hvalue, fun text ht => (ofText_of_holds ht).mpr hvalue⟩

def mixed : Config where
  root := some (.ofString "/r\n\"é")
  resolveLinks := some false
  packages := [.root "p/*", .spec {}, .spec { root := some "q", name := some "n" }]

def mixedMembers : List (String × Json) :=
  [("root", .string "/r\n\"é"), ("resolveSymlinks", .bool false),
    ("packages", .array [.string "p/*", .object [],
      .object [("name", .string "n"), ("root", .string "q")]])]

def mixedText : String :=
  "\x7b \"packages\": [\"p/*\", \x7b\x7d, \x7b\"name\": \"n\", \"root\": \"q\"\x7d],\n" ++
    "\"resolveSymlinks\": false, \"root\": \"/r\\n\\\"\\u00e9\" \x7d"

theorem read_written_mixed : ∃ v, mixed.toJson? = some v ∧
    Reorders v (.object mixedMembers.reverse) ∧ Holds mixedText (.object mixedMembers.reverse) ∧
    ofValue (.ofString "/c.json") (.object mixedMembers.reverse) = .ok mixed ∧
    ofText (.ofString "/c.json") mixedText = .ok mixed ∧
    ofText (.ofString "/c.json") v.compact = .ok mixed := by
  have hroot : mixed.HasTextRoot := hasTextRoot_ofString (some "/r\n\"é")
  have hspec : Reorders (.object [("root", .string "q"), ("name", .string "n")])
      (.object [("name", .string "n"), ("root", .string "q")]) :=
    .object rfl (List.forall₂_same.mpr fun v _ => .same v) (.swap _ _ _)
  have hitems : Reorders (.array (mixed.packages.map itemToJson)) (.array [.string "p/*",
      .object [], .object [("name", .string "n"), ("root", .string "q")]]) :=
    .array (.cons (.same _) (.cons (.same _) (.cons hspec .nil)))
  have hmembers : List.Forall₂ Reorders ((given mixed.options).map (·.2))
      (mixedMembers.map (·.2)) := .cons (.same _) (.cons (.same _) (.cons hitems .nil))
  have hkeys : (given mixed.options).map (·.1) = mixedMembers.map (·.1) := rfl
  have hholds : Holds mixedText (.object mixedMembers.reverse) := ⟨[], by cbv, by cbv⟩
  obtain ⟨v, hv, hread, htext⟩ := read_written (.ofString "/c.json") hroot
  have hvalue : Reorders v (.object mixedMembers.reverse) := by
    rw [(toJson?_eq_some_iff.mp hv).2]
    exact .object hkeys hmembers (List.reverse_perm _).symm
  exact ⟨v, hv, hvalue, hholds, (hread _ hvalue).1, (hread _ hvalue).2 _ hholds, htext⟩

end Config
end Monorepo
